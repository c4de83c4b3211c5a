import TeleBezel.Api.MessageSend
import TeleBezel.Lib.Transition

/-!
# One delivery order for a key

The row that a post makes is the only one with its key, and the request that made it is the only
one that calls the gateway. Everything else that asks for the key finds that row: it is given the
row's operation, or a conflict when its body has another digest. A row is never taken away and
only moves forward, so this holds along every run, whatever requests die on the way.

The rows that the retention drops after a week stay here: a run lies within it.

## Main definitions

* `Sound`: what tasks, rows, calls and answers have to do with each other.
* `Over`: a request has its answer and called nothing.

## Main results

* `sound_run`, `over_run`: both are kept by whatever comes.
* `one_order_of_run`: one call for a key, one operation, a conflict for another body.
-/

open List

namespace Api

open Transition

variable {env : Env} {s : State}

/-- The key as a client knows it: token, account and `Idempotency-Key`. -/
def Post.triple (post : Post) : Uuid × Uuid × String :=
  (post.principal.id, post.uuid, post.idempotencyKey)

/-- What a post asks for: the chat, the reply and the text as it is sent. -/
def Post.content (env : Env) (post : Post) : String × Option String × Option String :=
  (post.chatId, post.replyTo, canonical env post.text)

theorem Post.key_of_triple {post post' : Post} (h : post.triple = post'.triple) :
    post.key env = post'.key env := by
  obtain ⟨htoken, haccount, hkey⟩ := by simpa [Post.triple] using h
  simp [Post.key, htoken, haccount, hkey]

/-- Two posts ask for different things, and the digests that are compared are the same. -/
def Post.Collides (env : Env) (post post' : Post) : Prop :=
  ∃ text text', canonical env post.text = some text ∧ canonical env post'.text = some text' ∧
    requestJson post.chatId post.replyTo text ≠ requestJson post'.chatId post'.replyTo text' ∧
    env.requestHmac post.chatId post.replyTo text = env.requestHmac post'.chatId post'.replyTo text'

theorem Post.collides_of_digest {post post' : Post} {digest : Bytes}
    (h : some digest = post.digest env) (h' : some digest = post'.digest env)
    (hne : post.content env ≠ post'.content env) : post.Collides env post' := by
  obtain ⟨text, htext, hdigest⟩ := Option.map_eq_some_iff.mp h.symm
  obtain ⟨text', htext', hdigest'⟩ := Option.map_eq_some_iff.mp h'.symm
  refine ⟨text, text', htext, htext', fun hjson => hne ?_, hdigest.trans hdigest'.symm⟩
  obtain ⟨hchat, hreply, rfl⟩ := requestJson_injective hjson
  simp [Post.content, hchat, hreply, htext, htext']

/-- Every row is still there, the same but for a state further on. -/
def Grows (rows rows' : List MessageSend) : Prop :=
  ∀ row ∈ rows, ∃ row' ∈ rows', row'.id = row.id ∧ row'.toAttributes = row.toAttributes ∧
    Forward row.state row'.state

theorem Grows.refl (rows : List MessageSend) : Grows rows rows :=
  fun row hrow => ⟨row, hrow, rfl, rfl, Forward.refl _⟩

theorem Grows.trans {rows rows' rows'' : List MessageSend} (h : Grows rows rows')
    (h' : Grows rows' rows'') : Grows rows rows'' := by
  intro row hrow
  obtain ⟨row', hrow', hid, hattributes, hforward⟩ := h row hrow
  obtain ⟨row'', hrow'', hid', hattributes', hforward'⟩ := h' row' hrow'
  exact ⟨row'', hrow'', hid'.trans hid, hattributes'.trans hattributes, hforward.trans hforward'⟩

theorem grows_append (rows : List MessageSend) (row : MessageSend) : Grows rows (rows ++ [row]) :=
  fun other hother => ⟨other, mem_append_left _ hother, rfl, rfl, Forward.refl _⟩

/-- `id` is the operation of a row that stands for a post. -/
def Holds (env : Env) (rows : List MessageSend) (id : Uuid) (post : Post) : Prop :=
  ∃ row ∈ rows, row.id = id ∧ row.key = post.key env ∧ some row.requestHmac = post.digest env

theorem Holds.mono {rows rows' : List MessageSend} {id : Uuid} {post : Post}
    (hgrows : Grows rows rows') (h : Holds env rows id post) : Holds env rows' id post := by
  obtain ⟨row, hrow, hid, hkey, hdigest⟩ := h
  obtain ⟨row', hrow', hid', hattributes, -⟩ := hgrows row hrow
  exact ⟨row', hrow', hid'.trans hid, by rw [hattributes, hkey], by rw [hattributes, hdigest]⟩

/-- A request has not called the gateway's `sendMessage`. -/
def Uncalled (calls : List Order) (request : ℕ) : Prop := ∀ order ∈ calls, order.request ≠ request

/-- What a task rests on: a claim is for its post, and the row is there before a second attempt;
the request that made a row has not called yet; every other one follows a row of its post. -/
def Task.Sound (env : Env) (rows : List MessageSend) (created calls : List Order) (request : ℕ) :
    Task → Prop
  | .lookup post attributes _ attempt =>
    attributes.key = post.key env ∧ some attributes.requestHmac = post.digest env ∧
      Uncalled calls request ∧ (attempt = 0 ∨ ∃ row ∈ rows, row.key = attributes.key)
  | .insert post attributes _ attempt =>
    attributes.key = post.key env ∧ some attributes.requestHmac = post.digest env ∧
      Uncalled calls request ∧ attempt = 0
  | .dispatch post send _ =>
    (⟨request, post, send.id⟩ : Order) ∈ created ∧ Uncalled calls request
  | .dispatched post send => Holds env rows send.id post
  | .refreshing post send => ∀ p, post = some p → Holds env rows send.id p
  | .recording post id _ => ∀ p, post = some p → Holds env rows id p

/-- `operation.conflict`. -/
def conflict : ApiException := { errorCode := "operation.conflict", status := 409 }

/-- What an answer to a post says: a row of the post, or, once the post was accepted, a conflict. -/
def Answer.Sound (env : Env) (rows : List MessageSend) (accepted : List (ℕ × Post)) (request : ℕ)
    (post : Post) : Answer → Prop
  | .operation send => Holds env rows send.id post
  | .refused exception => exception = conflict ∨ ∀ p, (request, p) ∉ accepted
  | .uncaught => ∃ id, Holds env rows id post

/-- Rows have different ids and keys, and everything else rests on a row of its post. -/
structure Sound (env : Env) (s : State) : Prop where
  id_unique : ∀ row ∈ s.rows, ∀ row' ∈ s.rows, row.id = row'.id → row = row'
  key_unique : ∀ row ∈ s.rows, ∀ row' ∈ s.rows, row.key = row'.key → row = row'
  task : ∀ n task, s.tasks n = some task → n < s.next ∧ task.Sound env s.rows s.created s.calls n
  accepted : ∀ n post, (n, post) ∈ s.accepted → n < s.next
  created : ∀ order ∈ s.created, Holds env s.rows order.id order.post
  created_unique : ∀ order ∈ s.created, ∀ order' ∈ s.created,
    order.post.key env = order'.post.key env → order = order'
  call : ∀ order ∈ s.calls, order.request < s.next ∧ order ∈ s.created
  call_unique : (s.calls.map Order.request).Nodup
  answer : ∀ n post answer, (n, some post, answer) ∈ s.answers →
    n < s.next ∧ answer.Sound env s.rows s.accepted n post

theorem Sound.holds_unique (h : Sound env s) {id id' : Uuid} {post post' : Post}
    (hkey : post.key env = post'.key env) (hholds : Holds env s.rows id post)
    (hholds' : Holds env s.rows id' post') :
    id = id' ∧ ∃ digest, some digest = post.digest env ∧ some digest = post'.digest env := by
  obtain ⟨row, hrow, rfl, hrowkey, hdigest⟩ := hholds
  obtain ⟨row', hrow', rfl, hrowkey', hdigest'⟩ := hholds'
  obtain rfl := h.key_unique row hrow row' hrow' (by rw [hrowkey, hrowkey', hkey])
  exact ⟨rfl, _, hdigest, hdigest'⟩

section Frame

variable {n : ℕ} {task : Task} {post : Option Post}

theorem Task.Sound.congr {rows rows' : List MessageSend} {created created' calls calls' : List Order}
    (hrows : Grows rows rows') (hcreated : ∀ order ∈ created, order ∈ created')
    (hcalls : ∀ order ∈ calls', order.request = n → order ∈ calls)
    (h : task.Sound env rows created calls n) : task.Sound env rows' created' calls' n := by
  have huncalled : Uncalled calls n → Uncalled calls' n := by
    intro hn order horder hrequest
    exact hn order (hcalls order horder hrequest) hrequest
  cases task with
  | lookup post attributes text attempt =>
    obtain ⟨hkey, hdigest, hn, hattempt⟩ := h
    refine ⟨hkey, hdigest, huncalled hn, hattempt.imp_right ?_⟩
    rintro ⟨row, hrow, hrowkey⟩
    obtain ⟨row', hrow', -, hattributes, -⟩ := hrows row hrow
    exact ⟨row', hrow', by rw [hattributes, hrowkey]⟩
  | insert post attributes text attempt =>
    obtain ⟨hkey, hdigest, hn, hattempt⟩ := h
    exact ⟨hkey, hdigest, huncalled hn, hattempt⟩
  | dispatch post send text => exact ⟨hcreated _ h.1, huncalled h.2⟩
  | dispatched post send => exact h.mono hrows
  | refreshing post send | recording post id outcome => exact fun p hp => (h p hp).mono hrows

section

variable (h : Sound env s)
include h

theorem Sound.goOn (hn : n < s.next) (htask : task.Sound env s.rows s.created s.calls n) :
    Sound env (s.goOn n task) := by
  refine { h with task := ?_ }
  intro m other hother
  by_cases hm : m = n
  · subst hm
    obtain rfl : task = other := by simpa [State.goOn] using hother
    exact ⟨hn, htask⟩
  · exact h.task m other ((Function.update_of_ne hm _ _).symm.trans hother)

theorem Sound.drop : Sound env (s.drop n) := by
  refine { h with task := ?_ }
  intro m other hother
  by_cases hm : m = n
  · subst hm
    simp [State.drop] at hother
  · exact h.task m other ((Function.update_of_ne hm _ _).symm.trans hother)

theorem Sound.answered {answer : Answer} (hn : n < s.next)
    (hanswer : ∀ p, post = some p → answer.Sound env s.rows s.accepted n p) :
    Sound env (s.answer n post answer) := by
  refine { h.drop with answer := ?_ }
  intro m p other hother
  rcases mem_append.mp hother with hold | hnew
  · exact h.answer m p other hold
  · obtain ⟨rfl, hp, rfl⟩ : m = n ∧ some p = post ∧ other = answer := by simpa using hnew
    exact ⟨hn, hanswer p hp.symm⟩

theorem Sound.elsewhere {now : ℕ} {accounts : Uuid → Option AccountData} :
    Sound env { s with now, accounts } :=
  { h with }

theorem Sound.withAccepted {p : Post} (hn : n < s.next)
    (hnone : ∀ p answer, (n, some p, answer) ∉ s.answers) :
    Sound env { s with accepted := s.accepted ++ [(n, p)] } := by
  refine { h with accepted := ?_, answer := ?_ }
  · intro m q hq
    rcases mem_append.mp hq with hold | hlast
    · exact h.accepted m q hold
    · obtain ⟨rfl, rfl⟩ := by simpa using hlast
      exact hn
  · intro m q answer hanswer
    obtain ⟨hlt, hsound⟩ := h.answer m q answer hanswer
    refine ⟨hlt, ?_⟩
    cases answer with
    | operation send | uncaught => exact hsound
    | refused exception =>
      refine hsound.imp_right ?_
      intro hrefused other hother
      rcases mem_append.mp hother with hold | hlast
      · exact hrefused other hold
      · obtain ⟨rfl, rfl⟩ := by simpa using hlast
        exact hnone q _ hanswer

theorem Sound.begin : Sound env s.begin := by
  refine { h with task := ?_, accepted := ?_, call := ?_, answer := ?_ }
  · exact fun m other hother => (h.task m other hother).imp_left Nat.lt_succ_of_lt
  · exact fun m p hp => Nat.lt_succ_of_lt (h.accepted m p hp)
  · exact fun order horder => (h.call order horder).imp_left Nat.lt_succ_of_lt
  · exact fun m p other hother => (h.answer m p other hother).imp_left Nat.lt_succ_of_lt

end

end Frame

section Step

variable {n : ℕ} {post : Post} {attributes : Attributes} {text : String}

variable {caller : Option Post} {send : MessageSend}

theorem Sound.refreshed (h : Sound env s)
    (hn : n < s.next) (hholds : ∀ p, caller = some p → Holds env s.rows send.id p) :
    Sound env (s.refresh n caller send) := by
  unfold State.refresh
  split
  · exact h.answered hn hholds
  · exact h.goOn hn hholds

theorem Sound.lookedUp (h : Sound env s) {attempt : ℕ}
    (htask : s.tasks n = some (.lookup post attributes text attempt)) :
    Sound env (s.lookup n post attributes text attempt) := by
  obtain ⟨hn, hkey, hdigest, huncalled, hattempt⟩ := h.task n _ htask
  unfold State.lookup
  split
  · rename_i row hfound
    have hrow : row ∈ s.rows := mem_of_find?_eq_some hfound
    have hrowkey : row.key = attributes.key := by simpa using List.find?_some hfound
    split
    · refine h.answered hn ?_
      rintro p ⟨⟩
      exact Or.inl rfl
    · rename_i hsame
      refine h.refreshed hn ?_
      rintro p ⟨⟩
      exact ⟨row, hrow, rfl, hrowkey.trans hkey, by rw [not_not.mp hsame, hdigest]⟩
  · rename_i hfound
    refine h.goOn hn ⟨hkey, hdigest, huncalled, ?_⟩
    -- a second attempt would have found the row that it lost to
    rcases hattempt with hzero | ⟨row, hrow, hrowkey⟩
    · exact hzero
    · have hnone := List.find?_eq_none.mp hfound row hrow
      simp [hrowkey] at hnone

theorem unique_append {α κ : Type*} (f : α → κ) {l : List α} {x : α}
    (h : ∀ a ∈ l, ∀ b ∈ l, f a = f b → a = b) (hnew : ∀ a ∈ l, f a ≠ f x) :
    ∀ a ∈ l ++ [x], ∀ b ∈ l ++ [x], f a = f b → a = b := by
  intro a ha b hb hab
  rcases mem_append.mp ha with hla | hxa
  · rcases mem_append.mp hb with hlb | hxb
    · exact h a hla b hlb hab
    · rw [mem_singleton.mp hxb] at hab
      exact absurd hab (hnew a hla)
  · rcases mem_append.mp hb with hlb | hxb
    · rw [mem_singleton.mp hxa] at hab
      exact absurd hab.symm (hnew b hlb)
    · rw [mem_singleton.mp hxa, mem_singleton.mp hxb]

theorem Sound.withRows (h : Sound env s) {rows : List MessageSend} (hgrows : Grows s.rows rows)
    (hid : ∀ row ∈ rows, ∀ row' ∈ rows, row.id = row'.id → row = row')
    (hkey : ∀ row ∈ rows, ∀ row' ∈ rows, row.key = row'.key → row = row') :
    Sound env { s with rows } := by
  refine { h with id_unique := hid, key_unique := hkey, task := ?_, created := ?_, answer := ?_ }
  · intro m other hother
    obtain ⟨hlt, hsound⟩ := h.task m other hother
    exact ⟨hlt, hsound.congr hgrows (fun _ h => h) (fun _ h _ => h)⟩
  · intro order horder
    exact (h.created order horder).mono hgrows
  · intro m p answer hanswer
    obtain ⟨hlt, hsound⟩ := h.answer m p answer hanswer
    refine ⟨hlt, ?_⟩
    cases answer with
    | operation send => exact Holds.mono hgrows hsound
    | refused exception => exact hsound
    | uncaught => exact hsound.imp fun _ hholds => hholds.mono hgrows

theorem Sound.withRow (h : Sound env s) (row : MessageSend)
    (hid : ∀ other ∈ s.rows, other.id ≠ row.id) (hkey : ∀ other ∈ s.rows, other.key ≠ row.key) :
    Sound env { s with rows := s.rows ++ [row] } :=
  h.withRows (grows_append s.rows row) (unique_append MessageSend.id h.id_unique hid)
    (unique_append (fun row : MessageSend => row.key) h.key_unique hkey)

theorem Sound.withOrder (h : Sound env s) (order : Order)
    (hholds : Holds env s.rows order.id order.post)
    (hnew : ∀ other ∈ s.created, other.post.key env ≠ order.post.key env) :
    Sound env { s with created := s.created ++ [order] } := by
  refine { h with
    task := ?_
    created := ?_
    created_unique :=
      unique_append (fun order : Order => order.post.key env) h.created_unique hnew
    call := ?_ }
  · intro m other hother
    obtain ⟨hlt, hsound⟩ := h.task m other hother
    exact ⟨hlt, hsound.congr (Grows.refl _) (fun _ h => mem_append_left _ h) (fun _ h _ => h)⟩
  · intro other hother
    rcases mem_append.mp hother with hold | hlast
    · exact h.created other hold
    · obtain rfl := mem_singleton.mp hlast
      exact hholds
  · intro other hother
    exact ⟨(h.call other hother).1, mem_append_left _ (h.call other hother).2⟩

theorem Sound.inserted (h : Sound env s) {attempt : ℕ} {id : Uuid}
    (htask : s.tasks n = some (.insert post attributes text attempt)) :
    Sound env (s.insert n post attributes text attempt id) := by
  obtain ⟨hn, hkey, hdigest, huncalled, rfl⟩ := h.task n _ htask
  unfold State.insert
  split
  · rename_i row hfound
    have hrow : row ∈ s.rows := mem_of_find?_eq_some hfound
    have hrowkey : row.key = attributes.key := by simpa using List.find?_some hfound
    rw [if_neg (by omega)]
    exact h.goOn hn ⟨hkey, hdigest, huncalled, Or.inr ⟨row, hrow, hrowkey⟩⟩
  · rename_i hfound
    split
    · exact h
    · rename_i hid
      have hnewId : ∀ other ∈ s.rows, other.id ≠ id := by simpa using hid
      have hnew : ∀ other ∈ s.rows, other.key ≠ attributes.key := by
        intro other hother
        simpa using List.find?_eq_none.mp hfound other hother
      set row : MessageSend := { attributes with id, state := .dispatching, updatedAt := s.now }
      have hholds : Holds env (s.rows ++ [row]) id post :=
        ⟨row, mem_append_right _ (mem_singleton_self row), rfl, hkey, hdigest⟩
      have hnewOrder : ∀ other ∈ s.created, other.post.key env ≠ post.key env := by
        intro order horder heq
        obtain ⟨other, hother, -, hotherkey, -⟩ := h.created order horder
        exact hnew other hother (by rw [hotherkey, heq, hkey])
      have hmade := (h.withRow row hnewId hnew).withOrder ⟨n, post, id⟩ hholds hnewOrder
      exact hmade.goOn hn ⟨mem_append_right _ (mem_singleton_self _), huncalled⟩

theorem Sound.called (h : Sound env s) (htask : s.tasks n = some (.dispatch post send text)) :
    Sound env { s.goOn n (.dispatched post send) with
      calls := s.calls ++ [⟨n, post, send.id⟩] } := by
  obtain ⟨hn, hcreated, huncalled⟩ := h.task n _ htask
  have hgoOn : Sound env (s.goOn n (.dispatched post send)) := h.goOn hn (h.created _ hcreated)
  refine { hgoOn with task := ?_, call := ?_, call_unique := ?_ }
  · intro m other hother
    obtain ⟨hlt, hsound⟩ := hgoOn.task m other hother
    refine ⟨hlt, ?_⟩
    by_cases hm : m = n
    · subst hm
      obtain rfl : Task.dispatched post send = other := by simpa [State.goOn] using hother
      exact hsound
    · refine hsound.congr (Grows.refl _) (fun _ h => h) ?_
      intro order horder hrequest
      rcases mem_append.mp horder with hold | hlast
      · exact hold
      · obtain rfl := mem_singleton.mp hlast
        exact absurd hrequest.symm hm
  · intro order horder
    rcases mem_append.mp horder with hold | hlast
    · exact h.call order hold
    · obtain rfl := mem_singleton.mp hlast
      exact ⟨hn, hcreated⟩
  · rw [map_append, map_singleton, nodup_append]
    refine ⟨h.call_unique, by simp, ?_⟩
    rintro a ha b hb rfl
    obtain ⟨order, horder, hrequest⟩ := mem_map.mp ha
    exact huncalled order horder (hrequest.trans (mem_singleton.mp hb))

section Replace

variable {row row' : MessageSend}

section

variable (h : Sound env s) (hrow : row ∈ s.rows) (hid : row'.id = row.id) (hattributes :
  row'.toAttributes = row.toAttributes) (hforward : Forward row.state row'.state)
include h hrow hid hattributes hforward

theorem Sound.replaced {other : MessageSend} (hother : other ∈ s.rows) :
    (if other.id = row.id then row' else other).id = other.id ∧
      (if other.id = row.id then row' else other).toAttributes = other.toAttributes ∧
      Forward other.state (if other.id = row.id then row' else other).state := by
  split
  · rename_i heq
    obtain rfl := h.id_unique other hother row hrow heq
    exact ⟨hid, hattributes, hforward⟩
  · exact ⟨rfl, rfl, Forward.refl _⟩

theorem Sound.grows_replace :
    Grows s.rows (s.rows.map fun other => if other.id = row.id then row' else other) :=
  fun _ hother => ⟨_, mem_map_of_mem hother, h.replaced hrow hid hattributes hforward hother⟩

theorem Sound.replace :
    Sound env { s with
      rows := s.rows.map fun other => if other.id = row.id then row' else other } := by
  have hreplaced := fun other (hother : other ∈ s.rows) =>
    h.replaced hrow hid hattributes hforward hother
  refine h.withRows (h.grows_replace hrow hid hattributes hforward) ?_ ?_
  · intro a ha b hb hab
    obtain ⟨x, hx, rfl⟩ := mem_map.mp ha
    obtain ⟨y, hy, rfl⟩ := mem_map.mp hb
    rw [(hreplaced x hx).1, (hreplaced y hy).1] at hab
    rw [h.id_unique x hx y hy hab]
  · intro a ha b hb hab
    obtain ⟨x, hx, rfl⟩ := mem_map.mp ha
    obtain ⟨y, hy, rfl⟩ := mem_map.mp hb
    rw [(hreplaced x hx).2.1, (hreplaced y hy).2.1] at hab
    rw [h.key_unique x hx y hy hab]

end

end Replace

theorem Sound.statusAnswered (h : Sound env s) {answer : Except ApiException (Option Operation)}
    (htask : s.tasks n = some (.refreshing caller send)) :
    Sound env (s.statusAnswer n caller send answer) := by
  obtain ⟨hn, hholds⟩ := h.task n _ htask
  unfold State.statusAnswer
  split
  · exact h.answered hn hholds
  · exact h.answered hn hholds
  · split
    · split
      · exact h.answered hn hholds
      · exact h.goOn hn hholds
    · exact h.goOn hn hholds

theorem Sound.recorded (h : Sound env s) {id : Uuid} {outcome : Outcome}
    (htask : s.tasks n = some (.recording caller id outcome)) :
    Sound env (s.record n caller id outcome) := by
  obtain ⟨hn, hholds⟩ := h.task n _ htask
  have huncaught : ∀ p, caller = some p → Answer.uncaught.Sound env s.rows s.accepted n p :=
    fun p hp => ⟨id, hholds p hp⟩
  unfold State.record
  split
  · exact h.answered hn huncaught
  · rename_i row hfound
    have hrow : row ∈ s.rows := mem_of_find?_eq_some hfound
    obtain rfl : row.id = id := by simpa using List.find?_some hfound
    obtain ⟨hid, hattributes⟩ := recorded_identity s.now row outcome
    have hforward := forward_recorded s.now row outcome
    dsimp only
    split
    · have hgrows := h.grows_replace hrow hid hattributes hforward
      refine (h.replace hrow hid hattributes hforward).answered hn ?_
      intro p hp
      rw [Answer.Sound, hid]
      exact (hholds p hp).mono hgrows
    · exact h.answered hn huncaught

end Step

theorem sound_step (event : Event) (h : Sound env s) : Sound env (step env s event) := by
  have hfresh : s.next < s.begin.next := Nat.lt_succ_self _
  cases event with
  | elapse seconds | account uuid account =>
    exact h.elsewhere
  | post post =>
    rw [step]
    split
    · refine h.begin.answered hfresh ?_
      rintro p ⟨⟩
      refine Or.inr ?_
      intro other hother
      exact absurd (h.accepted _ _ hother) (Nat.lt_irrefl _)
    · rename_i attributes text hprepare
      obtain ⟨hkey, hdigest⟩ := prepare_ok hprepare
      have huncalled : Uncalled s.calls s.next :=
        fun order horder => Nat.ne_of_lt (h.call order horder).1
      have hclaim : Sound env (s.begin.goOn s.next (.lookup post attributes text 0)) :=
        h.begin.goOn hfresh ⟨hkey, hdigest, huncalled, Or.inl rfl⟩
      refine hclaim.withAccepted hfresh ?_
      intro p answer hanswer
      exact absurd (h.answer _ _ _ hanswer).1 (Nat.lt_irrefl _)
  | status principal uuid operationId =>
    rw [step]
    split
    · exact h.begin.answered hfresh nofun
    · exact h.begin.refreshed hfresh nofun
  | observe uuid operationId operation =>
    rw [step]
    split
    · exact h
    · exact h.begin.goOn hfresh nofun
  | lookup request =>
    rw [step]
    split
    · rename_i htask
      exact h.lookedUp htask
    · exact h
  | insert request id =>
    rw [step]
    split
    · rename_i htask
      exact h.inserted htask
    · exact h
  | call request =>
    rw [step]
    split
    · rename_i htask
      exact h.called htask
    · exact h
  | sendAnswer request answer =>
    simp only [step]
    split
    · rename_i htask
      obtain ⟨hn, hholds⟩ := h.task _ _ htask
      refine h.goOn hn ?_
      rintro p ⟨⟩
      exact hholds
    · exact h
  | statusAnswer request answer =>
    rw [step]
    split
    · rename_i htask
      exact h.statusAnswered htask
    · exact h
  | record request =>
    rw [step]
    split
    · rename_i htask
      exact h.recorded htask
    · exact h
  | crash request => exact h.drop

theorem grows_insert (s : State) (request : ℕ) (post : Post) (attributes : Attributes)
    (text : String) (attempt : ℕ) (id : Uuid) :
    Grows s.rows (s.insert request post attributes text attempt id).rows := by
  unfold State.insert
  split
  · split <;> exact Grows.refl _
  · split
    · exact Grows.refl _
    · exact grows_append _ _

theorem Sound.grows_record (h : Sound env s) (request : ℕ) (caller : Option Post) (id : Uuid)
    (outcome : Outcome) : Grows s.rows (s.record request caller id outcome).rows := by
  unfold State.record
  split
  · exact Grows.refl _
  · rename_i row hfound
    have hrow : row ∈ s.rows := mem_of_find?_eq_some hfound
    obtain rfl : row.id = id := by simpa using List.find?_some hfound
    obtain ⟨hid, hattributes⟩ := recorded_identity s.now row outcome
    dsimp only
    split
    · exact h.grows_replace hrow hid hattributes (forward_recorded s.now row outcome)
    · exact Grows.refl _

theorem grows_step (event : Event) (h : Sound env s) : Grows s.rows (step env s event).rows := by
  cases event with
  | elapse seconds | account uuid account => exact Grows.refl _
  | post post =>
    rw [step]
    split <;> exact Grows.refl _
  | status principal uuid operationId =>
    rw [step]
    split
    · exact Grows.refl _
    · rw [State.rows_refresh]
      exact Grows.refl _
  | observe uuid operationId operation =>
    rw [step]
    split <;> exact Grows.refl _
  | lookup request =>
    rw [step]
    split
    · rw [State.rows_lookup]
      exact Grows.refl _
    · exact Grows.refl _
  | insert request id =>
    rw [step]
    split
    · exact grows_insert s _ _ _ _ _ _
    · exact Grows.refl _
  | call request =>
    rw [step]
    split <;> exact Grows.refl _
  | sendAnswer request answer =>
    simp only [step]
    split <;> exact Grows.refl _
  | statusAnswer request answer =>
    rw [step]
    split
    · rw [State.rows_statusAnswer]
      exact Grows.refl _
    · exact Grows.refl _
  | record request =>
    rw [step]
    split
    · exact h.grows_record _ _ _ _
    · exact Grows.refl _
  | crash request => exact Grows.refl _

theorem sound_start (accounts : Uuid → Option AccountData) (now : ℕ) :
    Sound env { accounts, now } := by
  constructor
  case call_unique => exact nodup_nil
  case task =>
    intro n task htask
    exact absurd htask (Option.some_ne_none task).symm
  case accepted =>
    intro n post hpost
    exact absurd hpost not_mem_nil
  case answer =>
    intro n post answer hanswer
    exact absurd hanswer not_mem_nil
  all_goals
    intro x hx
    exact absurd hx not_mem_nil

theorem sound_run {s' : State} {events : List Event}
    (hrun : Run (fun s e s' => step env s e = s') s events s') (h : Sound env s) :
    Sound env s' ∧ Grows s.rows s'.rows := by
  refine hrun.invariant (fun t => Sound env t ∧ Grows s.rows t.rows) ?_ ⟨h, Grows.refl _⟩
  rintro t event t' ⟨hsound, hgrows⟩ rfl
  exact ⟨sound_step event hsound, hgrows.trans (grows_step event hsound)⟩

theorem Sound.one_call (h : Sound env s) (triple : Uuid × Uuid × String) :
    (s.calls.filter fun order => order.post.triple = triple).length ≤ 1 := by
  have hnodup : ((s.calls.filter fun order => order.post.triple = triple).map Order.request).Nodup :=
    h.call_unique.sublist (filter_sublist.map _)
  have hmem : ∀ order ∈ s.calls.filter fun order => order.post.triple = triple,
      order ∈ s.created ∧ order.post.triple = triple := by
    intro order horder
    obtain ⟨hcall, htriple⟩ := mem_filter.mp horder
    exact ⟨(h.call order hcall).2, by simpa using htriple⟩
  generalize (s.calls.filter fun order => order.post.triple = triple) = orders at hnodup hmem
  match orders with
  | [] => exact Nat.zero_le 1
  | [_] => exact Nat.le_refl 1
  | a :: b :: rest =>
    obtain ⟨ha, hatriple⟩ := hmem a mem_cons_self
    obtain ⟨hb, hbtriple⟩ := hmem b (mem_cons_of_mem _ mem_cons_self)
    have hab : a = b :=
      h.created_unique a ha b hb (Post.key_of_triple (hatriple.trans hbtriple.symm))
    rw [hab] at hnodup
    simp at hnodup

section Over

/-- Request `n` is over: it was given one answer, and the gateway was not called for it. -/
structure Over (n : ℕ) (post : Post) (answer : Answer) (s : State) : Prop where
  lt : n < s.next
  idle : s.tasks n = none
  answers : ∀ p given, (n, some p, given) ∈ s.answers ↔ p = post ∧ given = answer
  uncalled : Uncalled s.calls n

variable {n m : ℕ} {post : Post} {answer : Answer} {caller : Option Post}
variable (h : Over n post answer s)
include h

theorem Over.ne {task : Task} (htask : s.tasks m = some task) : m ≠ n := by
  rintro rfl
  rw [h.idle] at htask
  cases htask

theorem Over.begin : Over n post answer s.begin :=
  { h with lt := Nat.lt_succ_of_lt h.lt }

theorem Over.goOn (hm : m ≠ n) (task : Task) : Over n post answer (s.goOn m task) :=
  { h with idle := (Function.update_of_ne hm.symm ..).trans h.idle }

theorem Over.drop : Over n post answer (s.drop m) := by
  refine { h with idle := ?_ }
  by_cases hm : n = m
  · subst hm
    exact Function.update_self ..
  · exact (Function.update_of_ne hm ..).trans h.idle

section

variable (hm : m ≠ n)
include hm

theorem Over.answered (given : Answer) :
    Over n post answer (s.answer m caller given) := by
  refine { h.drop with answers := fun p other => ?_ }
  rw [← h.answers p other, State.answer, mem_append, or_iff_left]
  intro hlast
  exact hm (Prod.mk.inj (mem_singleton.mp hlast)).1.symm

theorem Over.refresh (send : MessageSend) :
    Over n post answer (s.refresh m caller send) := by
  unfold State.refresh
  split
  · exact h.answered hm _
  · exact h.goOn hm _

theorem Over.lookup (other : Post) (attributes : Attributes) (text : String)
    (attempt : ℕ) : Over n post answer (s.lookup m other attributes text attempt) := by
  unfold State.lookup
  split
  · split
    · exact h.answered hm _
    · exact h.refresh hm _
  · exact h.goOn hm _

theorem Over.insert (other : Post) (attributes : Attributes) (text : String)
    (attempt : ℕ) (id : Uuid) :
    Over n post answer (s.insert m other attributes text attempt id) := by
  unfold State.insert
  split
  · split
    · exact h.answered hm _
    · exact h.goOn hm _
  · split
    · exact h
    · exact { h.goOn hm _ with }

theorem Over.called (other : Post) (send : MessageSend) :
    Over n post answer { s.goOn m (.dispatched other send) with
      calls := s.calls ++ [⟨m, other, send.id⟩] } := by
  refine { h.goOn hm _ with uncalled := ?_ }
  intro order horder
  rcases mem_append.mp horder with hold | hlast
  · exact h.uncalled order hold
  · obtain rfl := mem_singleton.mp hlast
    exact hm

theorem Over.statusAnswer (send : MessageSend)
    (given : Except ApiException (Option Operation)) :
    Over n post answer (s.statusAnswer m caller send given) := by
  unfold State.statusAnswer
  split
  · exact h.answered hm _
  · exact h.answered hm _
  · split
    · split
      · exact h.answered hm _
      · exact h.goOn hm _
    · exact h.goOn hm _

theorem Over.record (id : Uuid) (outcome : Outcome) :
    Over n post answer (s.record m caller id outcome) := by
  unfold State.record
  split
  · exact h.answered hm _
  · dsimp only
    split
    · exact { h.answered hm _ with }
    · exact h.answered hm _

end

theorem over_step (event : Event) : Over n post answer (step env s event) := by
  have hnext : s.next ≠ n := Nat.ne_of_gt h.lt
  cases event with
  | elapse seconds | account uuid account => exact { h with }
  | post other =>
    rw [step]
    split
    · exact h.begin.answered hnext _
    · exact { h.begin.goOn hnext _ with }
  | status principal uuid operationId =>
    rw [step]
    split
    · exact h.begin.answered hnext _
    · exact h.begin.refresh hnext _
  | observe uuid operationId operation =>
    rw [step]
    split
    · exact h
    · exact h.begin.goOn hnext _
  | lookup request =>
    rw [step]
    split
    · rename_i htask
      exact h.lookup (h.ne htask) _ _ _ _
    · exact h
  | insert request id =>
    rw [step]
    split
    · rename_i htask
      exact h.insert (h.ne htask) _ _ _ _ _
    · exact h
  | call request =>
    rw [step]
    split
    · rename_i htask
      exact h.called (h.ne htask) _ _
    · exact h
  | sendAnswer request given =>
    simp only [step]
    split
    · rename_i htask
      exact h.goOn (h.ne htask) _
    · exact h
  | statusAnswer request given =>
    rw [step]
    split
    · rename_i htask
      exact h.statusAnswer (h.ne htask) _ _
    · exact h
  | record request =>
    rw [step]
    split
    · rename_i htask
      exact h.record (h.ne htask) _ _
    · exact h
  | crash request => exact h.drop

omit h in
/-- A post that a check before the claim refuses is over with that refusal. -/
theorem Sound.over_refused (h : Sound env s) {exception : ApiException}
    (hprepare : prepare env s.accounts post = .error exception) :
    Over s.next post (.refused exception) (step env s (.post post)) := by
  rw [step, hprepare]
  refine ⟨Nat.lt_succ_self _, Function.update_self .., fun p given => ?_,
    fun order horder => Nat.ne_of_lt (h.call order horder).1⟩
  have hnew : (s.next, some p, given) ∉ s.answers :=
    fun hold => Nat.lt_irrefl _ (h.answer _ _ _ hold).1
  simpa [State.answer, State.begin] using fun hold => absurd hold hnew

omit h in
theorem over_run {s' : State} {events : List Event}
    (hrun : Run (fun s e s' => step env s e = s') s events s') (h : Over n post answer s) :
    Over n post answer s' := by
  refine hrun.invariant (Over n post answer) ?_ h
  rintro t event t' hover rfl
  exact over_step hover event

end Over

/-- **One delivery order.** Whatever requests come, and wherever they die: the gateway is called
at most once for a key, every answer that carries an operation carries the same, an accepted post
with another body calls the gateway for nothing and is answered a conflict unless the digests of the
two collide, a post that is refused before its claim has that refusal for its only answer and calls
the gateway for nothing, and no row moves back. -/
theorem one_order_of_run {accounts : Uuid → Option AccountData} {now : ℕ}
    {events later : List Event} {s s' : State}
    (hrun : Run (fun s e s' => step env s e = s') { accounts, now } events s)
    (hlater : Run (fun s e s' => step env s e = s') s later s') :
    (∀ triple, (s'.calls.filter fun order => order.post.triple = triple).length ≤ 1) ∧
    (∀ n n' post post' send send', (n, some post, .operation send) ∈ s'.answers →
      (n', some post', .operation send') ∈ s'.answers → post.triple = post'.triple →
        send.id = send'.id) ∧
    (∀ first ∈ s'.created, ∀ n post, (n, post) ∈ s'.accepted →
      post.triple = first.post.triple → post.content env ≠ first.post.content env →
        ((∀ id, ⟨n, post, id⟩ ∉ s'.calls) ∧
          (∀ send, s'.tasks n ≠ some (.refreshing (some post) send)) ∧
          ∀ answer, (n, some post, answer) ∈ s'.answers → answer = .refused conflict) ∨
        post.Collides env first.post) ∧
    (∀ post exception rest, later = .post post :: rest →
      prepare env s.accounts post = .error exception →
        (∀ p answer, (s.next, some p, answer) ∈ s'.answers ↔
          p = post ∧ answer = .refused exception) ∧
        ∀ order ∈ s'.calls, order.request ≠ s.next) ∧
    (∀ row ∈ s.rows, ∃ row' ∈ s'.rows, row'.id = row.id ∧ Forward row.state row'.state) := by
  obtain ⟨hsound, -⟩ := sound_run hrun (sound_start accounts now)
  obtain ⟨h, hgrows⟩ := sound_run hlater hsound
  refine ⟨h.one_call, ?_, ?_, ?_, ?_⟩
  · intro n n' post post' send send' hanswer hanswer' htriple
    have hholds : Holds env s'.rows send.id post := (h.answer n post _ hanswer).2
    have hholds' : Holds env s'.rows send'.id post' := (h.answer n' post' _ hanswer').2
    exact (h.holds_unique (Post.key_of_triple htriple) hholds hholds').1
  · intro first hfirst n post haccepted htriple hcontent
    by_cases hcollides : post.Collides env first.post
    · exact .inr hcollides
    -- a row of the post would be the row of the first one, and have its digest
    have hno : ∀ id, ¬ Holds env s'.rows id post := by
      intro id hholds
      obtain ⟨-, digest, hdigest, hdigest'⟩ :=
        h.holds_unique (Post.key_of_triple htriple) hholds (h.created first hfirst)
      exact hcollides (Post.collides_of_digest hdigest hdigest' hcontent)
    refine .inl ⟨?_, ?_, ?_⟩
    · intro id hcall
      exact hno id (h.created _ (h.call _ hcall).2)
    · intro send htask
      exact hno send.id ((h.task n _ htask).2 post rfl)
    · intro answer hanswer
      have hanswered := (h.answer n post answer hanswer).2
      cases answer with
      | operation send => exact absurd hanswered (hno send.id)
      | uncaught =>
        obtain ⟨id, hholds⟩ := hanswered
        exact absurd hholds (hno id)
      | refused exception =>
        rcases hanswered with rfl | hrefused
        · rfl
        · exact absurd haccepted (hrefused post)
  · intro post exception rest heq hprepare
    subst heq
    obtain rfl := (run_function_iff _ _ _ _).mp hlater
    have hover := over_run ((run_function_iff (step env) _ rest _).mpr rfl)
      (hsound.over_refused hprepare)
    exact ⟨hover.answers, hover.uncalled⟩
  · intro row hrow
    obtain ⟨row', hrow', hid, -, hforward⟩ := hgrows row hrow
    exact ⟨row', hrow', hid, hforward⟩

namespace Sample

def appKey : Bytes :=
  "base64:AAAAAAAAAAAAAAAAAAAAAAAAAAAAAAAAAAAAAAAAAAA=".toList.map Char.toNat

def derived : Bytes :=
  [254, 119, 109, 144, 11, 8, 216, 182, 114, 60, 220, 214, 251, 241, 159, 16, 1, 216, 247, 55, 245,
    254, 177, 166, 179, 154, 21, 77, 209, 177, 165, 60]

/-- The digest of the body `First` in chat 42. -/
def firstHmac : Bytes :=
  [118, 90, 79, 29, 248, 133, 209, 14, 105, 127, 185, 217, 249, 170, 0, 128, 67, 93, 75, 242, 191,
    173, 20, 131, 23, 174, 60, 236, 109, 42, 241, 206]

/-- The digest of the body `Second` in chat 42. -/
def secondHmac : Bytes :=
  [241, 127, 62, 128, 172, 146, 234, 203, 114, 147, 92, 64, 164, 168, 227, 133, 10, 253, 49, 130,
    192, 45, 154, 64, 239, 246, 217, 7, 164, 167, 169, 250]

/-- The digests on what is digested below; anything else is kept as it is. -/
def hashHmac (data : String) (key : Bytes) : Bytes :=
  if key = appKey ∧ data = "telebezel/message-sends/v1" then derived
  else if key = derived ∧ data = requestJson "42" none "First" then firstHmac
  else if key = derived ∧ data = requestJson "42" none "Second" then secondHmac
  else data.toList.map Char.toNat

def language : Env where
  normalize := some
  hash := fun key => if key = "watch-send-0002" then
      [247, 113, 73, 212, 70, 112, 141, 97, 214, 114, 97, 149, 149, 146, 81, 68, 247, 44, 16, 159,
        185, 55, 27, 190, 77, 159, 50, 62, 82, 68, 188, 97]
    else key.toList.map Char.toNat
  hashHmac := hashHmac
  appKey := appKey

def account : AccountData where
  id := 7
  storageGeneration := 70
  lifecycle := .active
  effectiveConfigId := 71

def accounts : Uuid → Option AccountData :=
  fun uuid => if uuid = 7 then some account else none

def post (text : String) : Post where
  principal := { id := 5, instanceId := some 6 }
  uuid := 7
  chatId := "42"
  idempotencyKey := "watch-send-0002"
  text := some text

def sent : List Event :=
  [.post (post "First"), .lookup 0, .insert 0 100, .call 0,
    .sendAnswer 0 (.ok { state := some "sent", messageId := some "900" }), .record 0]

def repeated : List Event := [.post (post "Second"), .lookup 1]

def loggedOut : List Event :=
  [.account 7 (some { account with lifecycle := .logoutPending }), .post (post "Second")]

def after (events : List Event) : State := events.foldl (step language) { accounts }

end Sample

theorem one_order_of_run_conflict :
    let s := Sample.after Sample.sent
    let s' := Sample.after (Sample.sent ++ Sample.repeated)
    (s'.calls.filter fun order => order.post.triple = (5, 7, "watch-send-0002")).length = 1 ∧
      (1, some (Sample.post "Second"), .refused conflict) ∈ s'.answers ∧
      (∀ answer, (1, some (Sample.post "Second"), answer) ∈ s'.answers →
        answer = .refused conflict) ∧
      ∀ row ∈ s.rows, ∃ row' ∈ s'.rows, row'.id = row.id ∧ Forward row.state row'.state := by
  intro s s'
  have hrun : Run (fun s e s' => step Sample.language s e = s')
      { accounts := Sample.accounts, now := 0 } Sample.sent s :=
    (run_function_iff _ _ _ _).mpr rfl
  have hlater : Run (fun s e s' => step Sample.language s e = s') s Sample.repeated s' :=
    (run_function_iff _ _ _ _).mpr (by simp only [s, s', Sample.after, List.foldl_append])
  obtain ⟨-, -, hconflict, -, hforward⟩ := one_order_of_run hrun hlater
  refine ⟨by decide, by decide, ?_, hforward⟩
  rcases hconflict ⟨0, Sample.post "First", 100⟩ (by decide) 1 (Sample.post "Second") (by decide)
    (by decide) (by decide) with h | ⟨_, _, ⟨⟩, ⟨⟩, -, h⟩
  · exact h.2.2
  · exact absurd h (by decide)

/-- A post with another body need not reach the claim, whatever the digests are: once the account is
logged out, it is refused for that. -/
theorem differing_post_refused :
    ¬ ∀ (env : Env) (accounts : Uuid → Option AccountData) (now : ℕ) (events : List Event) (s : State),
        Run (fun s e s' => step env s e = s') { accounts, now } events s →
        ∀ first ∈ s.created, ∀ n post answer, (n, some post, answer) ∈ s.answers →
          post.triple = first.post.triple → post.digest env ≠ first.post.digest env →
            answer = .refused conflict := by
  intro hclaim
  have hrun : Run (fun s e s' => step Sample.language s e = s')
      { accounts := Sample.accounts, now := 0 } (Sample.sent ++ Sample.loggedOut)
      (Sample.after (Sample.sent ++ Sample.loggedOut)) :=
    (run_function_iff _ _ _ _).mpr rfl
  have hrefused := hclaim Sample.language _ _ _ _ hrun
    ⟨0, Sample.post "First", 100⟩ (by decide) 1 (Sample.post "Second")
    (.refused { errorCode := "authorization.invalid_state", status := 409 }) (by decide)
    (by decide) (by decide)
  revert hrefused
  decide

end Api
