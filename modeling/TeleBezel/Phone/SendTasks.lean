import TeleBezel.Lib.Transition
import TeleBezel.Phone.Callbacks

/-!
# The dispatch of a send and its entry

An entry is made in the state `dispatching`, and `send` alone dispatches it then: it has no
operation yet, no check is made of it, and requests for it wait. As long as one of the callbacks of
that dispatch is to come, nothing else writes the state of the entry. The callback that ends the
dispatch leaves the state to `apply`, and `apply` accepts no operation that is still dispatching.
-/

open List

namespace Phone

open Transition Compose Function

/-- The entry of a dispatch by `send`: in the state it was made in, and without an operation. -/
def Sending (entry : Entry) : Prop := entry.state = .dispatching ∧ ¬ entry.known

/-- The tasks hold entries that exist; a dispatch by `send` is the only task of its entry, and
finds it as it was made. The entry `x` is the one whose callback of `send` is running. -/
structure Sound (x : Option ℕ) (c : Compose) : Prop where
  live : ∀ ref ∈ c.entries, ref < c.next
  slots : ∀ draftId attempt ref, c.slot draftId attempt = some ref → ref < c.next
  held : ∀ task ∈ c.tasks, task.ref < c.next
  sending : ∀ task ∈ c.tasks, task.sends → Sending (c.heap task.ref)
  alone : c.tasks.Pairwise fun task other => task.ref = other.ref → ¬ task.sends ∧ ¬ other.sends
  running : ∀ ref ∈ x, ref < c.next ∧ Sending (c.heap ref) ∧ ∀ task ∈ c.tasks, task.ref ≠ ref

namespace Sound

variable {x : Option ℕ} {c c' : Compose} {env : Env} {ref : ℕ}

theorem congr (h : Sound x c) (hview : (c'.heap, c'.next, c'.entries, c'.drafts, c'.tasks) =
    (c.heap, c.next, c.entries, c.drafts, c.tasks)) : Sound x c' := by
  simp only [Prod.mk.injEq] at hview
  obtain ⟨hheap, hnext, hentries, hdrafts, htasks⟩ := hview
  exact
    { live := by rw [hentries, hnext]; exact h.live
      slots := fun draftId attempt ref => by
        rw [hnext, slot, hdrafts]
        exact h.slots draftId attempt ref
      held := by rw [htasks, hnext]; exact h.held
      sending := by rw [htasks, hheap]; exact h.sending
      alone := by rw [htasks]; exact h.alone
      running := by rw [htasks, hnext, hheap]; exact h.running }

theorem modify (h : Sound x c) (f : Entry → Entry)
    (hf : Sending (c.heap ref) → Sending (f (c.heap ref))) : Sound x (c.modify ref f) := by
  have hkeep : ∀ other, Sending (c.heap other) → Sending ((c.modify ref f).heap other) := by
    intro other hother
    rw [modify_heap, update_apply]
    split_ifs with heq
    · exact hf (heq ▸ hother)
    · exact hother
  refine ⟨h.live, h.slots, h.held, fun task htask hs => hkeep _ (h.sending task htask hs), h.alone,
    fun ref' href' => ?_⟩
  obtain ⟨hlt, hsending, htasks⟩ := h.running ref' href'
  exact ⟨hlt, hkeep _ hsending, htasks⟩

/-- No task of `send` holds the entry. -/
def Free (c : Compose) (ref : ℕ) : Prop :=
  ∀ task ∈ c.tasks, task.ref = ref → ¬ task.sends

theorem free_of_not_sending (h : Sound x c) (hne : ¬ Sending (c.heap ref)) : Free c ref :=
  fun task htask heq hs => hne (heq ▸ h.sending task htask hs)

theorem release (h : Sound x c) (hfree : Free c ref) (f : Entry → Entry) :
    Sound none (c.modify ref f) := by
  refine ⟨h.live, h.slots, h.held, fun task htask hs => ?_, h.alone, nofun⟩
  rw [modify_heap, update_of_ne (fun heq => hfree task htask heq hs)]
  exact h.sending task htask hs

theorem await (h : Sound x c) (task : Task) (hlt : task.ref < c.next)
    (hsends : task.sends = false) (hfree : Free c task.ref) (hx : x ≠ some task.ref) :
    Sound x (c.await task) := by
  have hmem : ∀ other ∈ (c.await task).tasks, other ∈ c.tasks ∨ other = task := by
    simp
  refine ⟨h.live, h.slots, ?_, ?_, ?_, ?_⟩
  · intro other hother
    rcases hmem other hother with hin | rfl
    · exact h.held other hin
    · exact hlt
  · intro other hother hs
    rcases hmem other hother with hin | rfl
    · exact h.sending other hin hs
    · rw [hsends] at hs
      cases hs
  · rw [await_tasks, pairwise_append]
    refine ⟨h.alone, pairwise_singleton .., ?_⟩
    intro other hother last hlast heq
    rw [mem_singleton] at hlast
    subst hlast
    exact ⟨hfree other hother heq, by simp [hsends]⟩
  · intro ref' href'
    obtain ⟨hlt', hsending, htasks⟩ := h.running ref' href'
    refine ⟨hlt', hsending, fun other hother => ?_⟩
    rcases hmem other hother with hin | rfl
    · exact htasks other hin
    · rintro rfl
      exact hx href'

theorem awaitSend (h : Sound (some ref) c) (task : Task) (href : task.ref = ref) :
    Sound none (c.await task) := by
  obtain ⟨hlt, hsending, hfree⟩ := h.running ref rfl
  have hmem : ∀ other ∈ (c.await task).tasks, other ∈ c.tasks ∨ other = task := by
    simp
  refine ⟨h.live, h.slots, ?_, ?_, ?_, nofun⟩
  · intro other hother
    rcases hmem other hother with hin | rfl
    · exact h.held other hin
    · rwa [href]
  · intro other hother hs
    rcases hmem other hother with hin | rfl
    · exact h.sending other hin hs
    · rwa [href]
  · rw [await_tasks, pairwise_append]
    refine ⟨h.alone, pairwise_singleton .., ?_⟩
    intro other hother last hlast heq
    rw [mem_singleton] at hlast
    subst hlast
    exact absurd (heq.trans href) (hfree other hother)

theorem take (h : Sound none c) (i : ℕ) : Sound none (c.take i) where
  live := h.live
  slots := h.slots
  held task htask := h.held task (mem_of_mem_eraseIdx htask)
  sending task htask := h.sending task (mem_of_mem_eraseIdx htask)
  alone := h.alone.sublist (eraseIdx_sublist ..)
  running := nofun

variable {task : Task} {i : ℕ}

section

variable (h : Sound none c) (htask : c.tasks[i]? = some task)
include h htask

theorem others :
    ∀ other ∈ (c.take i).tasks, other.ref = task.ref → ¬ other.sends ∧ ¬ task.sends := by
  obtain ⟨hi, rfl⟩ := List.getElem?_eq_some_iff.1 htask
  intro other hother href
  obtain ⟨j, hj, hne, rfl⟩ := mem_eraseIdx_iff_getElem.1 hother
  rcases lt_or_gt_of_ne hne with hlt | hlt
  · exact pairwise_iff_getElem.1 h.alone j i hj hi hlt href
  · exact (pairwise_iff_getElem.1 h.alone i j hi hj hlt href.symm).symm

theorem free_take :
    Free (c.take i) task.ref :=
  fun other hother href => (h.others htask other hother href).1

theorem takeSend (hs : task.sends) : Sound (some task.ref) (c.take i) := by
  have hmem := mem_of_getElem? htask
  refine { h.take i with running := ?_ }
  rintro _ ⟨⟩
  exact ⟨h.held task hmem, h.sending task hmem hs,
    fun other hother href => (h.others htask other hother href).2 hs⟩

end

theorem alloc (h : Sound x c) (entry : Entry) (hnext : c'.next = c.next + 1)
    (hheap : c'.heap = update c.heap c.next entry)
    (hentries : ∀ ref ∈ c'.entries, ref ∈ c.entries ∨ ref = c.next)
    (hslots : ∀ draftId attempt ref, c'.slot draftId attempt = some ref →
      Filed c ref ∨ ref = c.next)
    (htasks : c'.tasks = c.tasks) : Sound x c' := by
  have hold : ∀ ref < c.next, c'.heap ref = c.heap ref := by
    intro ref hlt
    rw [hheap, update_of_ne hlt.ne]
  refine ⟨?_, ?_, ?_, ?_, by rw [htasks]; exact h.alone, ?_⟩
  · intro ref href
    rw [hnext]
    rcases hentries ref href with hin | rfl
    · exact (h.live ref hin).trans (Nat.lt_succ_self _)
    · exact Nat.lt_succ_self _
  · intro draftId attempt ref href
    rw [hnext]
    rcases hslots draftId attempt ref href with ⟨d, a, hslot⟩ | rfl
    · exact (h.slots d a ref hslot).trans (Nat.lt_succ_self _)
    · exact Nat.lt_succ_self _
  · rw [htasks, hnext]
    exact fun task htask => (h.held task htask).trans (Nat.lt_succ_self _)
  · rw [htasks]
    intro task htask hs
    rw [hold _ (h.held task htask)]
    exact h.sending task htask hs
  · rw [htasks, hnext]
    intro ref href
    obtain ⟨hlt, hsending, hfree⟩ := h.running ref href
    exact ⟨hlt.trans (Nat.lt_succ_self _), by rwa [hold ref hlt], hfree⟩

theorem slot_setAttempt {draftId attempt : ℕ} {draft : Draft} {new : Option ℕ}
    (hdrafts : c'.drafts = update c.drafts draftId
      (some (setAttempt draft attempt new))) (d a : ℕ) (h : c'.slot d a = some ref) :
    c.slot d a = some ref ∨ draft.attempts a = some ref ∨ new = some ref := by
  rw [slot, hdrafts, update_apply] at h
  split_ifs at h with hd
  · simp only [setAttempt, Option.bind_some, update_apply] at h
    split_ifs at h with ha
    · exact .inr (.inr h)
    · exact .inr (.inl h)
  · exact .inl h

theorem restore (h : Sound x c) (stored : Stored) : Sound x (c.restore stored) := by
  refine h.alloc _ rfl rfl (by simp) (fun d a ref href => ?_) rfl
  rcases slot_setAttempt rfl d a href with hslot | hattempt | hnew
  · exact .inl ⟨d, a, hslot⟩
  · left
    cases hdraft : c.drafts stored.draftId with
    | none =>
      rw [hdraft] at hattempt
      cases hattempt
    | some draft =>
      rw [hdraft] at hattempt
      exact ⟨stored.draftId, a, by simpa [slot, hdraft] using hattempt⟩
  · exact .inr (Option.some.inj hnew).symm

theorem load (h : Sound x c) : Sound x (c.load env) := by
  unfold Compose.load
  split
  · exact h
  have hfold : ∀ (stored : List Stored) (c : Compose), Sound x c →
      Sound x (stored.foldl Compose.restore c) := by
    intro stored
    induction stored with
    | nil => exact fun c hc => hc
    | cons first rest ih => exact fun c hc => ih _ (hc.restore first)
  have hempty : Sound x { c with loaded := true, entries := [] } := { h with live := nofun }
  exact (hfold _ _ hempty).congr rfl

theorem enter (h : Sound none c) {draftId : ℕ} {found : Draft} (attempt sequence : ℕ)
    (value : Settings) (hfound : c.drafts draftId = some found) :
    Sound (some c.next) (c.enter env found attempt sequence value) := by
  have halloc : Sound none (c.enter env found attempt sequence value) := by
    refine h.alloc (newEntry env found attempt sequence value) rfl rfl
      (by simp [Compose.enter]) (fun d a ref href => ?_) rfl
    rcases slot_setAttempt rfl d a href with hslot | hattempt | hnew
    · exact .inl ⟨d, a, hslot⟩
    · exact .inl ⟨draftId, a, by simpa [slot, hfound] using hattempt⟩
    · exact .inr (Option.some.inj hnew).symm
  refine { halloc with running := ?_ }
  rintro _ ⟨⟩
  have hnew : (c.enter env found attempt sequence value).heap c.next =
      newEntry env found attempt sequence value := update_self ..
  rw [hnew]
  exact ⟨Nat.lt_succ_self _, ⟨rfl, by simp [Entry.known, newEntry]⟩,
    fun task htask => (h.held task htask).ne⟩

theorem slot_of_slot_forget {draftId attempt ref' : ℕ}
    (h : (c.forget ref).slot draftId attempt = some ref') :
    c.slot draftId attempt = some ref' := by
  rw [slot, forget_drafts] at h
  cases hdraft : c.drafts (c.heap ref).draftId with
  | none =>
    rw [hdraft] at h
    exact h
  | some draft =>
    rw [hdraft] at h
    dsimp only at h
    split_ifs at h with hattempt
    · rw [update_apply] at h
      split_ifs at h with hd
      · simp only [setAttempt, Option.bind_some, update_apply] at h
        split_ifs at h with ha
        rw [slot, hd, hdraft]
        exact h
      · exact h
    · exact h

theorem forget (h : Sound x c) : Sound x (c.forget ref) where
  live other hother := h.live other (mem_of_mem_filter hother)
  slots draftId attempt other hslot := h.slots draftId attempt other (slot_of_slot_forget hslot)
  held := h.held
  sending := h.sending
  alone := h.alone
  running := h.running

theorem receive (h : Sound x c) (hfree : ¬ Sending (c.heap ref)) (operation : Operation) :
    Sound x (c.receive ref operation) :=
  Sound.modify (c := c.hearOperation ref operation) (h.congr rfl) _
    fun hs => absurd hs hfree

theorem receiveAnswer (h : Sound none c) (hfree : Free c ref) (operation : Option Operation) :
    Sound none (c.receiveAnswer ref operation) := by
  cases operation with
  | none => exact h
  | some operation =>
    exact Sound.release (c := c.hearOperation ref operation) (h.congr rfl) hfree
      fun entry => entry.apply operation

theorem readStatus (h : Sound none c) (hfree : Free c ref) (result : ApiResult) :
    Sound none (c.readStatus ref result) := by
  cases result with
  | ok operation => exact h.receiveAnswer hfree operation
  | error status code retryAfter =>
    simp only [Compose.readStatus]
    split
    · exact h.release hfree _
    · exact h

theorem checked (h : Sound x c) (next : Next) : Sound x (c.checked env ref next) :=
  Compose.checked_rule (fun _ h => h.congr rfl) (fun h => h.modify _ id) (fun h => h.modify _ id) h
    next

theorem dropWaiters (h : Sound x c) : Sound x (c.dropWaiters ref) := h.modify _ id

theorem finish (h : Sound x c) (dispatch : Dispatch) (code : Option ResultCode) :
    Sound x (c.finish env dispatch code) := by
  have hpersist : Sound x (c.persist env) := h.congr rfl
  unfold Compose.finish
  split
  · exact (h.dropWaiters.forget).congr rfl
  · exact hpersist.dropWaiters.congr rfl
  · exact hpersist.checked _

theorem goOn (h : Sound none c) (task' : Task)
    (htask : c.tasks[i]? = some task) (href : task'.ref = task.ref) (hsends : task'.sends = task.sends) :
    Sound none ((c.take i).await task') := by
  cases hs : task.sends with
  | true => exact (h.takeSend htask hs).awaitSend task' href
  | false =>
    refine (h.take i).await task' ?_ (hsends.trans hs) ?_ nofun
    · rw [href]
      exact h.held task (mem_of_getElem? htask)
    · rw [href]
      exact h.free_take htask

theorem answerPost (h : Sound none c) {dispatch : Dispatch}
    (htask : c.tasks[i]? = some (.post dispatch)) (result : ApiResult) :
    Sound none ((c.take i).answerPost env dispatch result) := by
  have htake := h.take i
  have hfree : Free (c.take i) dispatch.ref := h.free_take htask
  cases result with
  | ok operation => exact (htake.receiveAnswer hfree operation).finish _ _
  | error status code retryAfter =>
    simp only [Compose.answerPost, Compose.lostPost, Compose.refusedPost]
    split
    · split
      · exact (h.goOn (.retry dispatch) htask rfl rfl).congr rfl
      · have hheard : Sound none ((c.take i).hear (.lost ((c.take i).heap dispatch.ref).key)) :=
          htake.congr rfl
        exact (hheard.release hfree _).finish _ _
    · split
      · exact (htake.release hfree _).finish _ _
      · exact (htake.release hfree _).finish _ _

end Sound

theorem closed_sound (first : Compose) (e : Env × Event) : Closed first e Sound where
  say _ _ h := h.congr rfl
  persist _ h := h.congr rfl
  load _ h := h.load
  track _ _ h := h.modify _ id
  setChecking _ _ _ h := h.modify _ id
  join _ _ h _ _ := h.modify _ id
  receive operation _ h _ hknown := h.receive (fun hs => hs.2 hknown) operation
  status _ _ h href hknown hstate := by
    have hne := fun hs : Sending _ => hs.2 hknown
    refine h.await (.status _ _) ?_ rfl (h.free_of_not_sending hne) ?_
    · rcases href with hmem | ⟨d, a, hslot⟩
      · exact h.live _ hmem
      · exact h.slots d a _ hslot
    · exact fun hx => hne (h.running _ hx).2.1
  checkDispatch value next _ h hfiled _ hstate _ := by
    obtain ⟨d, a, hslot⟩ := hfiled
    have hne := fun hs : Sending _ => hstate hs.1
    refine Sound.congr (h.await (.post ⟨_, value, e.1.now, 1, .check next⟩) (h.slots d a _ hslot)
      rfl (h.free_of_not_sending hne) fun hx => hne (h.running _ hx).2.1) rfl
  enter sequence value _ _ h _ hfound _ _ _ := h.enter _ sequence value hfound
  sendDispatch value _ h := (h.awaitSend (.post ⟨_, value, e.1.now, 1, .send⟩) rfl).congr rfl
  wait value _ h := h.awaitSend (.poll _ value) rfl
  addDraft sequence payload text _ _ h _ _ := by
    refine { h with slots := fun d a ref href => ?_ }
    rw [slot] at href
    simp only [addDraft, respond_drafts, update_apply] at href
    split_ifs at href with hd
    · cases href
    · exact h.slots d a ref href
  polled _ h htask := h.takeSend htask rfl
  timer {c i dispatch} _ h htask :=
    (h.goOn (.post { dispatch with attempt := dispatch.attempt + 1 }) htask rfl rfl).congr rfl
  readStatus result _ h htask := (h.take _).readStatus (h.free_take htask) result
  posted _ h _ htask := h.answerPost htask _
  discardEntry _ _ ref _ _ h := by
    unfold discardEntry
    split
    · exact (h.modify _ id).forget
    · exact h
  dropDraft _ draftId _ _ h := by
    unfold dropDraft
    split
    · refine { h with slots := fun d a ref href => ?_ }
      simp only [slot, update_apply] at href
      split_ifs at href
      · cases href
      · exact h.slots d a ref href
    · exact h
  clear _ _ h := by
    refine ⟨forall_mem_nil _, ?_, fun task htask => h.held task (mem_of_mem_filter htask),
      fun task htask => h.sending task (mem_of_mem_filter htask),
      h.alone.sublist filter_sublist, ?_⟩
    · rintro _ _ _ ⟨⟩
    · rintro _ ⟨⟩
  restart _ _ h := by
    refine ⟨forall_mem_nil _, ?_, forall_mem_nil _, forall_mem_nil _, List.Pairwise.nil, ?_⟩
    · rintro _ _ _ ⟨⟩
    · rintro _ ⟨⟩

/-- Every entry that is dispatching, but for `x`, has its dispatch by `send` under way, and only
such entries have requests waiting for them; no POST is more than the third of its dispatch. -/
structure Carried (x : Option ℕ) (c : Compose) : Prop where
  carried : ∀ ref ∈ c.entries, (c.heap ref).state = .dispatching → x ≠ some ref →
    ∃ task ∈ c.tasks, task.sends ∧ task.ref = ref
  waiting : ∀ ref ∈ c.entries, (c.heap ref).waiters ≠ [] → x ≠ some ref →
    (c.heap ref).state = .dispatching
  posts : ∀ dispatch, .post dispatch ∈ c.tasks → dispatch.attempt ≤ postAttempts
  retries : ∀ dispatch, .retry dispatch ∈ c.tasks → dispatch.attempt < postAttempts

namespace Carried

variable {x : Option ℕ} {c c' : Compose} {env : Env} {ref : ℕ}

theorem congr (h : Carried x c)
    (hview : (c'.heap, c'.entries, c'.tasks) = (c.heap, c.entries, c.tasks)) : Carried x c' := by
  simp only [Prod.mk.injEq] at hview
  obtain ⟨hheap, hentries, htasks⟩ := hview
  exact
    { carried := by rw [hentries, hheap, htasks]; exact h.carried
      waiting := by rw [hentries, hheap]; exact h.waiting
      posts := by rw [htasks]; exact h.posts
      retries := by rw [htasks]; exact h.retries }

theorem modify (h : Carried x c) (f : Entry → Entry)
    (hstate : (f (c.heap ref)).state = (c.heap ref).state)
    (hwaiters : (f (c.heap ref)).waiters ≠ [] → (c.heap ref).waiters ≠ [] ∨
      (c.heap ref).state = .dispatching) : Carried x (c.modify ref f) := by
  have hsame : ∀ other, ((c.modify ref f).heap other).state = (c.heap other).state := by
    intro other
    rw [modify_heap, update_apply]
    split_ifs with heq
    · rw [hstate, heq]
    · rfl
  refine ⟨fun other hother hs => ?_, fun other hother hw hx => ?_, h.posts, h.retries⟩
  · rw [hsame] at hs
    exact h.carried other hother hs
  · rw [hsame]
    rw [modify_heap, update_apply] at hw
    split_ifs at hw with heq
    · subst heq
      rcases hwaiters hw with hw' | hs
      · exact h.waiting other hother hw' hx
      · exact hs
    · exact h.waiting other hother hw hx

theorem modifyRunning (h : Carried (some ref) c) (f : Entry → Entry) :
    Carried (some ref) (c.modify ref f) := by
  have hother : ∀ other, some ref ≠ some other → (c.modify ref f).heap other = c.heap other := by
    intro other hne
    rw [modify_heap, update_of_ne (fun heq => hne (by rw [heq]))]
  refine ⟨fun other hmem hs hx => ?_, fun other hmem hw hx => ?_, h.posts, h.retries⟩
  · rw [hother other hx] at hs
    exact h.carried other hmem hs hx
  · rw [hother other hx] at hw ⊢
    exact h.waiting other hmem hw hx

theorem settled (h : Carried (some ref) c)
    (hstate : ref ∈ c.entries → (c.heap ref).state ≠ .dispatching ∧ (c.heap ref).waiters = []) :
    Carried none c := by
  refine ⟨fun other hmem hs _ => ?_, fun other hmem hw _ => ?_, h.posts, h.retries⟩
  · by_cases heq : ref = other
    · subst heq
      exact absurd hs (hstate hmem).1
    · exact h.carried other hmem hs (by simpa using heq)
  · by_cases heq : ref = other
    · subst heq
      exact absurd (hstate hmem).2 hw
    · exact h.waiting other hmem hw (by simpa using heq)

theorem await (h : Carried x c) (task : Task)
    (hposts : ∀ dispatch, task = .post dispatch → dispatch.attempt ≤ postAttempts)
    (hretries : ∀ dispatch, task = .retry dispatch → dispatch.attempt < postAttempts) :
    Carried x (c.await task) := by
  refine ⟨fun ref hmem hs hx => ?_, h.waiting, fun dispatch hin => ?_, fun dispatch hin => ?_⟩
  · obtain ⟨other, hother, hsends⟩ := h.carried ref hmem hs hx
    exact ⟨other, by simp [hother], hsends⟩
  · rw [await_tasks, mem_append, mem_singleton] at hin
    exact hin.elim (h.posts dispatch) fun heq => hposts dispatch heq.symm
  · rw [await_tasks, mem_append, mem_singleton] at hin
    exact hin.elim (h.retries dispatch) fun heq => hretries dispatch heq.symm

variable {task : Task}

theorem handed (h : Carried (some ref) c) (hmem : task ∈ c.tasks)
    (hsends : task.sends) (href : task.ref = ref)
    (hdispatching : (c.heap ref).state = .dispatching) : Carried none c := by
  refine ⟨fun other hother hs _ => ?_, fun other hother hw _ => ?_, h.posts, h.retries⟩
  · by_cases heq : ref = other
    · exact ⟨task, hmem, hsends, href.trans heq⟩
    · exact h.carried other hother hs (by simpa using heq)
  · by_cases heq : ref = other
    · rwa [← heq]
    · exact h.waiting other hother hw (by simpa using heq)

theorem take (h : Carried none c) {i : ℕ} (htask : c.tasks[i]? = some task) :
    Carried (some task.ref) (c.take i) := by
  obtain ⟨hi, heq⟩ := List.getElem?_eq_some_iff.1 htask
  refine ⟨fun ref hmem hs hx => ?_, fun ref hmem hw _ => h.waiting ref hmem hw nofun,
    fun dispatch hin => h.posts dispatch (mem_of_mem_eraseIdx hin),
    fun dispatch hin => h.retries dispatch (mem_of_mem_eraseIdx hin)⟩
  obtain ⟨other, hother, hsends, href⟩ := h.carried ref hmem hs nofun
  obtain ⟨j, hj, rfl⟩ := getElem_of_mem hother
  refine ⟨_, mem_eraseIdx_iff_getElem.2 ⟨j, hj, ?_, rfl⟩, hsends, href⟩
  rintro rfl
  exact hx (by rw [← href, heq])

theorem forget (h : Carried x c) (ref : ℕ) : Carried x (c.forget ref) where
  carried other hother := h.carried other (mem_of_mem_filter hother)
  waiting other hother := h.waiting other (mem_of_mem_filter hother)
  posts := h.posts
  retries := h.retries

theorem modifyOpen (h : Carried x c) (f : Entry → Entry)
    (hopen : (c.heap ref).state ≠ .dispatching) (hstate : (f (c.heap ref)).state ≠ .dispatching)
    (hwaiters : (f (c.heap ref)).waiters = (c.heap ref).waiters) : Carried x (c.modify ref f) := by
  refine ⟨fun other hmem hs hx => ?_, fun other hmem hw hx => ?_, h.posts, h.retries⟩
  · rw [modify_heap, update_apply] at hs
    split_ifs at hs with heq
    · exact absurd hs hstate
    · exact h.carried other hmem hs hx
  · rw [modify_heap, update_apply] at hw ⊢
    split_ifs at hw ⊢ with heq
    · subst heq
      rw [hwaiters] at hw
      exact absurd (h.waiting other hmem hw hx) hopen
    · exact h.waiting other hmem hw hx

theorem open_of_known (hc : Carried x c) (hs : Sound x c) (hmem : ref ∈ c.entries)
    (hknown : (c.heap ref).known) : (c.heap ref).state ≠ .dispatching := by
  intro hstate
  by_cases hx : x = some ref
  · exact (hs.running ref hx).2.1.2 hknown
  · obtain ⟨task, htask, hsends, rfl⟩ := hc.carried ref hmem hstate hx
    exact (hs.sending task htask hsends).2 hknown

section

variable (hc : Carried none c) (hs : Sound none c) {i : ℕ}
include hc hs i

theorem open_of_check
    (htask : c.tasks[i]? = some task) (hsends : task.sends = false) (hmem : task.ref ∈ c.entries) :
    (c.heap task.ref).state ≠ .dispatching ∧ (c.heap task.ref).waiters = [] := by
  have hopen : (c.heap task.ref).state ≠ .dispatching := by
    intro hstate
    obtain ⟨other, hother, hsends', href⟩ := hc.carried _ hmem hstate nofun
    obtain ⟨hi, rfl⟩ := List.getElem?_eq_some_iff.1 htask
    obtain ⟨j, hj, rfl⟩ := getElem_of_mem hother
    have hne : j ≠ i := by
      rintro rfl
      rw [hsends] at hsends'
      cases hsends'
    exact (hs.others htask _ (mem_eraseIdx_iff_getElem.2 ⟨j, hj, hne, rfl⟩) href).1 hsends'
  exact ⟨hopen, by_contra fun hw => hopen (hc.waiting _ hmem hw nofun)⟩

theorem takeCheck
    (htask : c.tasks[i]? = some task) (hsends : task.sends = false) : Carried none (c.take i) :=
  (hc.take htask).settled fun hmem => hc.open_of_check hs htask hsends hmem

theorem goOn (task' : Task)
    (htask : c.tasks[i]? = some task) (href : task'.ref = task.ref)
    (hsends : task'.sends = task.sends)
    (hposts : ∀ dispatch, task' = .post dispatch → dispatch.attempt ≤ postAttempts)
    (hretries : ∀ dispatch, task' = .retry dispatch → dispatch.attempt < postAttempts) :
    Carried none ((c.take i).await task') := by
  cases hkind : task.sends with
  | true =>
    have hmem : task' ∈ ((c.take i).await task').tasks := by simp
    refine ((hc.take htask).await task' hposts hretries).handed hmem (hsends.trans hkind) href ?_
    exact (hs.sending task (mem_of_getElem? htask) hkind).1
  | false => exact (hc.takeCheck hs htask hkind).await task' hposts hretries

end

theorem checked (h : Carried x c) (ref : ℕ) (next : Next) : Carried x (c.checked env ref next) :=
  Compose.checked_rule (fun _ h => h.congr rfl) (fun h => h.modify _ rfl .inl)
    (fun h => h.modify _ rfl .inl) h next

theorem finish (dispatch : Dispatch) (code : Option ResultCode)
    (h : Carried (some dispatch.ref) c) (hstate : (c.heap dispatch.ref).state ≠ .dispatching)
    (hwaiters : dispatch.done ≠ .send → dispatch.ref ∈ c.entries →
      (c.heap dispatch.ref).waiters = []) :
    Carried none (c.finish env dispatch code) := by
  unfold Compose.finish
  split
  · -- the entry is forgotten
    have hforgotten : Carried none ((c.dropWaiters dispatch.ref).forget dispatch.ref) := by
      refine Carried.settled ((h.modifyRunning _).forget dispatch.ref) fun hmem => ?_
      have hne := (mem_filter.1 hmem).2
      simp at hne
    exact hforgotten.congr rfl
  · -- the waiting requests are answered
    have hpersist : Carried (some dispatch.ref) (c.persist env) := h.congr rfl
    have hsettle : Carried (some dispatch.ref) ((c.persist env).settle dispatch.ref) :=
      Carried.congr (hpersist.modifyRunning fun entry => entry.setWaiters []) rfl
    refine hsettle.settled fun _ => ?_
    have hheap : ((c.persist env).settle dispatch.ref).heap dispatch.ref =
        (c.heap dispatch.ref).setWaiters [] := update_self ..
    rw [hheap]
    exact ⟨hstate, rfl⟩
  · next next hdone =>
    have hpersist : Carried (some dispatch.ref) (c.persist env) := h.congr rfl
    refine (hpersist.settled fun hmem => ⟨hstate, hwaiters ?_ hmem⟩).checked _ _
    rw [hdone]
    exact Done.noConfusion

end Carried

/-- The answers to a POST that end the dispatch of an entry in another state: an operation that is
not itself dispatching, if the entry is. -/
def Settles (c : Compose) (e : Env × Event) : Prop :=
  ∀ i operation dispatch, e.2 = .posted i (.ok operation) →
    c.tasks[i]? = some (.post dispatch) → (c.heap dispatch.ref).state = .dispatching →
    ∃ state, operation.bind Operation.state = some state ∧ state ≠ .dispatching

theorem receiveAnswer_heap (c : Compose) (ref : ℕ) (operation : Option Operation) :
    (c.receiveAnswer ref operation).heap =
      update c.heap ref ((c.heap ref).applyAnswer operation) := by
  cases operation with
  | none => exact (update_eq_self ..).symm
  | some operation => rfl

theorem Carried.receiveAnswer {c : Compose} {ref : ℕ} (h : Carried (some ref) c)
    (operation : Option Operation) : Carried (some ref) (c.receiveAnswer ref operation) := by
  cases operation with
  | none => exact h
  | some operation =>
    exact Carried.modifyRunning (c := c.hearOperation ref operation) (h.congr rfl)
      fun entry => entry.apply operation

theorem Carried.answerPost {c : Compose} {env : Env} {i : ℕ} {dispatch : Dispatch}
    {result : ApiResult} (hc : Carried none c) (hs : Sound none c)
    (hsettles : Settles c (env, .posted i result))
    (htask : c.tasks[i]? = some (.post dispatch)) :
    Carried none ((c.take i).answerPost env dispatch result) := by
  have htake : Carried (some dispatch.ref) (c.take i) := hc.take htask
  have hwaiters : dispatch.done ≠ .send → dispatch.ref ∈ c.entries →
      (c.heap dispatch.ref).waiters = [] :=
    fun hdone hmem => (hc.open_of_check hs htask (by simpa [Task.sends] using hdone) hmem).2
  -- an assignment of a state other than dispatching, then the end of the dispatch
  have hassign : ∀ (c' : Compose) (f : Entry → Entry) (code : Option ResultCode),
      c'.heap = c.heap → c'.entries = c.entries → c'.tasks = (c.take i).tasks →
      (f (c.heap dispatch.ref)).state ≠ .dispatching →
      (f (c.heap dispatch.ref)).waiters = (c.heap dispatch.ref).waiters →
      Carried none ((c'.modify dispatch.ref f).finish env dispatch code) := by
    intro c' f code hheap hentries htasks hstate hkeep
    have hnew : (c'.modify dispatch.ref f).heap dispatch.ref = f (c.heap dispatch.ref) := by
      simp [hheap]
    have hc' : Carried (some dispatch.ref) c' := htake.congr (Prod.ext hheap (Prod.ext hentries htasks))
    refine Carried.finish dispatch code (hc'.modifyRunning f) ?_ ?_
    · rwa [hnew]
    · intro hdone hmem
      rw [hnew, hkeep]
      exact hwaiters hdone (by rwa [← hentries])
  cases result with
  | ok operation =>
    have hnew : ((c.take i).receiveAnswer dispatch.ref operation).heap dispatch.ref =
        (c.heap dispatch.ref).applyAnswer operation := by
      rw [receiveAnswer_heap]
      exact update_self ..
    have hentries : ((c.take i).receiveAnswer dispatch.ref operation).entries = c.entries := by
      cases operation <;> rfl
    refine Carried.finish dispatch none (htake.receiveAnswer operation) ?_ ?_
    · rw [hnew]
      by_cases hstate : (c.heap dispatch.ref).state = .dispatching
      · obtain ⟨state, hsome, hne⟩ := hsettles i operation dispatch rfl htask hstate
        obtain ⟨op, rfl, hop⟩ := Option.bind_eq_some_iff.1 hsome
        intro happly
        rw [Entry.applyAnswer, Entry.state_apply_dispatching, hop] at happly
        simp [hne] at happly
      · cases operation with
        | none => exact hstate
        | some op => exact fun happly => hstate ((Entry.state_apply_dispatching _ _).1 happly).1
    · intro hdone hmem
      rw [hnew]
      rw [hentries] at hmem
      cases operation with
      | none => exact hwaiters hdone hmem
      | some op => exact (Entry.waiters_apply _ _).trans (hwaiters hdone hmem)
  | error status code retryAfter =>
    simp only [Compose.answerPost, Compose.lostPost, Compose.refusedPost]
    split
    · split
      · next hagain =>
        simp only [Compose.again, Bool.and_eq_true, decide_eq_true_eq] at hagain
        refine (hc.goOn hs (.retry dispatch) htask rfl rfl nofun ?_).congr rfl
        rintro _ ⟨⟩
        exact hagain.1
      · exact hassign _ _ _ rfl rfl rfl SendState.noConfusion rfl
    · split
      · exact hassign _ _ _ rfl rfl rfl SendState.noConfusion rfl
      · exact hassign _ _ _ rfl rfl rfl SendState.noConfusion rfl

theorem Carried.readStatus {c : Compose} (hc : Carried none c) (hs : Sound none c) {i ref : ℕ}
    {next : Next} (htask : c.tasks[i]? = some (.status ref next)) (result : ApiResult) :
    Carried none ((c.take i).readStatus ref result) := by
  have htake : Carried (some ref) (c.take i) := hc.take htask
  have hopen : ref ∈ c.entries → (c.heap ref).state ≠ .dispatching ∧ (c.heap ref).waiters = [] :=
    hc.open_of_check hs htask rfl
  cases result with
  | ok operation =>
    cases operation with
    | none => exact htake.settled hopen
    | some operation =>
      refine (htake.receiveAnswer (some operation)).settled fun hmem => ?_
      obtain ⟨hstate, hwaiters⟩ := hopen hmem
      have hnew : ((c.take i).receiveAnswer ref (some operation)).heap ref =
          (c.heap ref).apply operation := update_self ..
      rw [hnew, Entry.waiters_apply]
      exact ⟨fun happly => hstate ((Entry.state_apply_dispatching _ _).1 happly).1, hwaiters⟩
  | error status code retryAfter =>
    simp only [Compose.readStatus]
    split
    · refine (htake.modifyRunning Entry.setUnknown).settled fun hmem => ?_
      have hnew : ((c.take i).modify ref Entry.setUnknown).heap ref = (c.heap ref).setUnknown :=
        update_self ..
      rw [hnew]
      exact ⟨SendState.noConfusion, (hopen hmem).2⟩
    · exact htake.settled hopen

theorem Carried.restore {x : Option ℕ} {c : Compose} (hc : Carried x c) (hs : Sound x c)
    (stored : Stored) : Carried x (c.restore stored) := by
  have hold : ∀ ref ∈ c.entries, (c.restore stored).heap ref = c.heap ref := fun ref hmem =>
    update_of_ne (hs.live ref hmem).ne _ _
  have hnew : (c.restore stored).heap c.next = stored.restore := update_self ..
  have hmem : ∀ ref ∈ (c.restore stored).entries, ref ∈ c.entries ∨ ref = c.next := by
    simp
  refine ⟨fun ref href hstate hx => ?_, fun ref href hw hx => ?_, hc.posts, hc.retries⟩
  · rcases hmem ref href with hin | rfl
    · rw [hold ref hin] at hstate
      exact hc.carried ref hin hstate hx
    · rw [hnew] at hstate
      exact absurd hstate stored.state_restore_ne
  · rcases hmem ref href with hin | rfl
    · rw [hold ref hin] at hw ⊢
      exact hc.waiting ref hin hw hx
    · rw [hnew, Stored.waiters_restore] at hw
      exact absurd rfl hw

theorem Carried.load {x : Option ℕ} {c : Compose} {env : Env} (hc : Carried x c)
    (hs : Sound x c) : Carried x (c.load env) := by
  unfold Compose.load
  split
  · exact hc
  have hfold : ∀ (stored : List Stored) (c : Compose), Sound x c → Carried x c →
      Carried x (stored.foldl Compose.restore c) := by
    intro stored
    induction stored with
    | nil => exact fun c _ hc => hc
    | cons first rest ih => exact fun c hs hc => ih _ (hs.restore first) (hc.restore hs first)
  have hempty : Sound x { c with loaded := true, entries := [] } := { hs with live := nofun }
  exact (hfold _ _ hempty ⟨nofun, nofun, hc.posts, hc.retries⟩).congr rfl

theorem Carried.enter {c : Compose} {env : Env} (hc : Carried none c) (hs : Sound none c)
    (found : Draft) (attempt sequence : ℕ) (value : Settings) :
    Carried (some c.next) (c.enter env found attempt sequence value) := by
  have hold : ∀ ref ∈ c.entries, (c.enter env found attempt sequence value).heap ref =
      c.heap ref := fun ref hmem => update_of_ne (hs.live ref hmem).ne _ _
  have hmem : ∀ ref ∈ (c.enter env found attempt sequence value).entries,
      some c.next ≠ some ref → ref ∈ c.entries := by
    intro ref href hne
    simp only [Compose.enter, Compose.persist_entries, Compose.add_entries, mem_append,
      mem_singleton] at href
    exact href.resolve_right fun heq => hne (by rw [heq])
  refine ⟨fun ref href hstate hx => ?_, fun ref href hw hx => ?_, hc.posts, hc.retries⟩
  · have hin := hmem ref href hx
    rw [hold ref hin] at hstate
    exact hc.carried ref hin hstate nofun
  · have hin := hmem ref href hx
    rw [hold ref hin] at hw ⊢
    exact hc.waiting ref hin hw nofun

theorem closed_carried {first : Compose} {e : Env × Event} (hsettles : Settles first e) :
    ClosedOver first e Sound Carried where
  say _ _ h := h.congr rfl
  persist _ h := h.congr rfl
  load hs h := h.load hs
  track _ _ h := h.modify _ rfl .inl
  setChecking _ _ _ h := h.modify _ rfl .inl
  join _ _ h _ hstate := h.modify _ rfl fun _ => .inr hstate
  receive {x c ref} operation hs h hmem hknown := by
    have hopen := h.open_of_known hs hmem hknown
    refine Carried.modifyOpen (c := c.hearOperation ref operation) (h.congr rfl) _ hopen
      ?_ (Entry.waiters_apply _ _)
    exact fun happly => hopen ((Entry.state_apply_dispatching _ _).1 happly).1
  status _ _ h _ _ _ := h.await _ nofun nofun
  checkDispatch value next _ h _ _ _ _ := by
    refine Carried.congr (h.await (.post ⟨_, value, e.1.now, 1, .check next⟩) ?_ nofun) rfl
    rintro _ ⟨⟩
    exact (by decide : 1 ≤ postAttempts)
  enter sequence value _ hs h _ _ _ _ _ := h.enter hs _ _ sequence value
  sendDispatch {c ref} value hs h := by
    have hpost : Carried (some ref) (c.dispatch e.1 ref value .send) := by
      refine Carried.congr (h.await (.post ⟨ref, value, e.1.now, 1, .send⟩) ?_ nofun) rfl
      rintro _ ⟨⟩
      exact (by decide : 1 ≤ postAttempts)
    exact hpost.handed (mem_append_right _ (mem_singleton_self _)) rfl rfl (hs.running ref rfl).2.1.1
  wait {c ref} value hs h :=
    (h.await (.poll ref value) nofun nofun).handed (mem_append_right _ (mem_singleton_self _)) rfl rfl
      (hs.running ref rfl).2.1.1
  addDraft _ _ _ _ _ h _ _ := h.congr rfl
  polled _ h htask := h.take htask
  timer {c i dispatch} hs h htask := by
    refine (h.goOn hs (.post { dispatch with attempt := dispatch.attempt + 1 }) htask rfl rfl
      ?_ nofun).congr rfl
    rintro _ ⟨⟩
    exact h.retries dispatch (mem_of_getElem? htask)
  readStatus result hs h htask := h.readStatus hs htask result
  posted {i dispatch result} hs h he htask := by
    obtain ⟨env, event⟩ := e
    obtain rfl : event = .posted i result := he
    exact h.answerPost hs hsettles htask
  discardEntry _ _ ref _ _ h := by
    unfold discardEntry
    split
    · exact (h.modify _ rfl .inl).forget ref
    · exact h
  dropDraft _ _ _ _ h := by
    unfold dropDraft
    split
    · exact h.congr rfl
    · exact h
  clear _ _ h := by
    refine ⟨nofun, nofun, ?_, ?_⟩
    · exact fun dispatch hin => h.posts dispatch (mem_of_mem_filter hin)
    · exact fun dispatch hin => h.retries dispatch (mem_of_mem_filter hin)
  restart _ _ _ := ⟨nofun, nofun, nofun, nofun⟩

/-- **A dispatch leaves `dispatching`.** In any run in which no dispatch is answered with an
operation that is itself dispatching, or with none: an entry that is dispatching has its dispatch
by `send` under way, at most at its third POST, and so has every entry that a request waits for and
the one for which another send is refused as busy. -/
theorem carried_of_run {c : Compose} {es : List (Env × Event)}
    (hrun : Run (Within Settles fun c e c' => c.step e = c') {} es c) :
    (∀ ref ∈ c.entries, (c.heap ref).state = .dispatching ∨ (c.heap ref).waiters ≠ [] →
        ∃ task ∈ c.tasks, task.sends ∧ task.ref = ref) ∧
      (c.busy → ∃ task ∈ c.tasks, task.sends ∧ task.ref ∈ c.entries) ∧
      ∀ dispatch, .post dispatch ∈ c.tasks → dispatch.attempt ≤ postAttempts := by
  have hinv := hrun.invariant (fun c => Sound none c ∧ Carried none c) ?_ ?_
  · obtain ⟨hs, hc⟩ := hinv
    refine ⟨fun ref hmem hstate => ?_, fun hbusy => ?_, hc.posts⟩
    · exact hc.carried ref hmem
        (hstate.elim id fun hw => hc.waiting ref hmem hw nofun) nofun
    · simp only [Compose.busy, List.any_eq_true, decide_eq_true_eq] at hbusy
      obtain ⟨ref, hmem, hstate⟩ := hbusy
      obtain ⟨task, htask, hsends, rfl⟩ := hc.carried ref hmem hstate nofun
      exact ⟨task, htask, hsends, hmem⟩
  · rintro c e _ h ⟨hsettles, rfl⟩
    exact ((closed_carried hsettles).and (closed_sound c e)).step h
  · exact ⟨⟨nofun, nofun, nofun, nofun, List.Pairwise.nil, nofun⟩, nofun, nofun, nofun, nofun⟩

def lostOnce : List (Env × Event) :=
  [(Sample.env 1000, Sample.draft), (Sample.env 2000, Sample.send 2 0),
   (Sample.env 17000, .posted 0 (.error 504 none 0)), (Sample.env 18000, .timer 0)]

/-- The second POST of `lostOnce` is under way. -/
theorem carried_of_run_lostOnce :
    ∃ task ∈ (lostOnce.foldl Compose.step {}).tasks, task.sends ∧ task.ref = 0 := by
  have hrun : Run (Within Settles fun c e c' => c.step e = c') {} lostOnce
      (lostOnce.foldl Compose.step {}) := by
    refine ((((Run.nil _).snoc ⟨?_, rfl⟩).snoc ⟨?_, rfl⟩).snoc ⟨?_, rfl⟩).snoc ⟨?_, rfl⟩ <;>
      · rintro i operation dispatch he
        cases he
  exact (carried_of_run hrun).1 0 (by decide) (.inl (by decide))

/-- The API is still at work on the first POST of `lostOnce` when the second reaches it, and
answers with the operation as it is stored: the entry stays dispatching, with nobody at it. -/
theorem dispatching_after_done :
    ¬ ∀ (es : List (Env × Event)) (ref : ℕ), ref ∈ (es.foldl Compose.step {}).entries →
      ((es.foldl Compose.step {}).heap ref).state = .dispatching →
        ∃ task ∈ (es.foldl Compose.step {}).tasks, task.sends ∧ task.ref = ref := by
  intro h
  have htask := h
    (lostOnce ++ [(Sample.env 19000, .posted 0 (Sample.operation .dispatching))]) 0
    (by decide) (by decide)
  exact absurd htask (by decide)

end Phone
