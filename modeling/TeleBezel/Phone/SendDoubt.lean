import TeleBezel.Phone.SendIndex

/-!
# Sends in doubt

A POST whose answer is lost may have been accepted. From then on, until an operation is heard of,
a repetition under the same key is the only safe one. `dispatch` looks at the last answer only: a
definite error after a lost answer fails the entry, and an error that is fatal has it forgotten.
-/

open List

namespace Phone

open Transition Function

def inDoubt (key : JsString) (heard : List Heard) : Bool :=
  heard.foldl
    (fun doubt news => match news with
      | .lost key' => doubt || key' = key
      | .operation key' _ => doubt && key' ≠ key) false

theorem inDoubt_operations (key key' : JsString) (heard : List Heard) (state : Option SendState) :
    inDoubt key (heard ++ state.toList.map (.operation key')) =
      (inDoubt key heard && (state = none || key' ≠ key)) := by
  rw [inDoubt, foldl_append]
  cases state with
  | none | some state => simp [inDoubt]

def SparesDoubt (c : Compose) (e : Env × Event) : Prop :=
  ∀ i status code retryAfter dispatch, e.2 = .posted i (.error status code retryAfter) →
    c.tasks[i]? = some (.post dispatch) → inDoubt (c.heap dispatch.ref).key c.heard →
    lost status code

/-- The entry is there, has not failed if its key is in doubt, and all but the first `n` POSTs for
its attempt had its key. -/
structure Doubted (n ref : ℕ) (identity : Identity) (c : Compose) : Prop where
  loaded : c.loaded = true
  mem : ref ∈ c.entries
  same : (c.heap ref).toIdentity = identity
  state : inDoubt identity.key c.heard → (c.heap ref).state ≠ .failed
  posts : ∀ post ∈ c.posts.drop n, post.draftId = identity.draftId →
    post.attempt = identity.attempt → post.key = identity.key

namespace Doubted

variable {n ref : ℕ} {identity : Identity} {c c' : Compose} {env : Env}

section

variable (h : Doubted n ref identity c)
include h

theorem congr (hview : (c'.heap ref, c'.loaded, c'.entries, c'.heard, c'.posts) =
      (c.heap ref, c.loaded, c.entries, c.heard, c.posts)) : Doubted n ref identity c' := by
  simp only [Prod.mk.injEq] at hview
  obtain ⟨hheap, hloaded, hentries, hheard, hposts⟩ := hview
  exact
    { loaded := by rw [hloaded]; exact h.loaded
      mem := by rw [hentries]; exact h.mem
      same := by rw [hheap]; exact h.same
      state := by rw [hheard, hheap]; exact h.state
      posts := by rw [hposts]; exact h.posts }

theorem modify (other : ℕ) (f : Entry → Entry)
    (hidentity : (f (c.heap other)).toIdentity = (c.heap other).toIdentity)
    (hstate : (f (c.heap other)).state = .failed → (c.heap other).state = .failed) :
    Doubted n ref identity (c.modify other f) := by
  by_cases heq : ref = other
  · subst heq
    have hnew : (c.modify ref f).heap ref = f (c.heap ref) := update_self ..
    refine { h with same := ?_, state := fun hdoubt hfailed => ?_ }
    · rw [hnew, hidentity]
      exact h.same
    · rw [hnew] at hfailed
      exact h.state hdoubt (hstate hfailed)
  · exact h.congr (Prod.ext (update_of_ne heq ..) rfl)

theorem receive (other : ℕ) (operation : Operation) :
    Doubted n ref identity (c.receive other operation) := by
  have hheard : (c.receive other operation).heard = c.heard ++
      operation.state.toList.map (.operation (c.heap other).key) := rfl
  by_cases heq : ref = other
  · subst heq
    have hnew : (c.receive ref operation).heap ref = (c.heap ref).apply operation :=
      update_self ..
    refine { h with same := ?_, state := fun hdoubt => ?_ }
    · rw [hnew, Entry.toIdentity_apply]
      exact h.same
    · have hkey : (c.heap ref).key = identity.key := congrArg Identity.key h.same
      rw [hheard, inDoubt_operations, hkey] at hdoubt
      simp only [ne_eq, not_true_eq_false, decide_false, Bool.or_false, Bool.and_eq_true,
        decide_eq_true_eq] at hdoubt
      rw [hnew, Entry.state_apply, Entry.accepted, hdoubt.2]
      exact h.state hdoubt.1
  · have hold : (c.receive other operation).heap ref = c.heap ref := update_of_ne heq ..
    refine { h with same := by rw [hold]; exact h.same, state := fun hdoubt => ?_ }
    rw [hheard, inDoubt_operations, Bool.and_eq_true] at hdoubt
    rw [hold]
    exact h.state hdoubt.1

theorem receiveAnswer (other : ℕ) (operation : Option Operation) :
    Doubted n ref identity (c.receiveAnswer other operation) := by
  cases operation with
  | none => exact h
  | some operation => exact h.receive other operation

end

variable {dispatch : Dispatch}

theorem post {x : Option ℕ} (h : Doubted n ref identity c) (hindexed : Indexed x c)
    (hmem : dispatch.ref ∈ c.entries) :
    Doubted n ref identity (c.post dispatch) := by
  refine { h with posts := fun post hpost hdraft hattempt => ?_ }
  rw [Compose.post_posts, drop_append, mem_append] at hpost
  rcases hpost with hold | hnew
  · exact h.posts post hold hdraft hattempt
  · rw [mem_singleton.1 (mem_of_mem_drop hnew)] at hdraft hattempt ⊢
    rw [← h.same] at hdraft hattempt ⊢
    rw [hindexed.ref_unique hmem h.mem hdraft hattempt]

section

variable (h : Doubted n ref identity c)
include h

theorem load : Doubted n ref identity (c.load env) := by
  unfold Compose.load
  rw [if_pos h.loaded]
  exact h

theorem add (hlt : ref < c.next) (found : Draft) (attempt sequence : ℕ) (value : Settings) :
    Doubted n ref identity (c.enter env found attempt sequence value) := by
  have hold : (c.enter env found attempt sequence value).heap ref = c.heap ref :=
    update_of_ne hlt.ne ..
  exact
    { loaded := h.loaded
      mem := mem_append_left _ h.mem
      same := by rw [hold]; exact h.same
      state := fun hdoubt => by rw [hold]; exact h.state hdoubt
      posts := h.posts }

theorem checked (other : ℕ) (next : Next) :
    Doubted n ref identity (c.checked env other next) :=
  Compose.checked_rule (fun _ h => h.congr rfl) (fun h => h.modify _ _ rfl id)
    (fun h => h.modify _ _ rfl id) h next

theorem finish (dispatch : Dispatch) :
    Doubted n ref identity (c.finish env dispatch none) := by
  have hpersist : Doubted n ref identity (c.persist env) := h.congr rfl
  unfold Compose.finish
  split
  · next hcode => cases hcode
  · have hdropped : Doubted n ref identity ((c.persist env).dropWaiters dispatch.ref) :=
      hpersist.modify _ _ rfl id
    exact hdropped.congr rfl
  · exact hpersist.checked _ _

theorem finishOther (hne : ref ≠ dispatch.ref) (code : Option ResultCode) :
    Doubted n ref identity (c.finish env dispatch code) := by
  cases code with
  | none => exact h.finish dispatch
  | some code =>
    cases hdone : dispatch.done with
    | send =>
      have hdropped : Doubted n ref identity (c.dropWaiters dispatch.ref) := h.modify _ _ rfl id
      have hforgot : Doubted n ref identity
          ((c.dropWaiters dispatch.ref).forget dispatch.ref) :=
        { hdropped with mem := mem_filter.2 ⟨h.mem, by simpa using hne⟩ }
      simp only [Compose.finish, hdone]
      exact hforgot.congr rfl
    | check next =>
      have hpersist : Doubted n ref identity (c.persist env) := h.congr rfl
      simp only [Compose.finish, hdone]
      exact hpersist.checked _ _

theorem answerPost (hdoubt : inDoubt identity.key c.heard) {i : ℕ}
    {result : ApiResult} (htask : c.tasks[i]? = some (.post dispatch))
    (hspares : SparesDoubt c (env, .posted i result)) :
    Doubted n ref identity ((c.take i).answerPost env dispatch result) := by
  have htake : Doubted n ref identity (c.take i) := h.congr rfl
  cases result with
  | ok operation => exact (htake.receiveAnswer _ operation).finish dispatch
  | error status code retryAfter =>
    simp only [Compose.answerPost]
    split
    · -- another POST is lost: the entry is not failed by it
      have hnot : (c.heap ref).state ≠ .failed := h.state hdoubt
      have hheard : Doubted n ref identity
          ((c.take i).hear (.lost ((c.take i).heap dispatch.ref).key)) :=
        { h with state := fun _ => hnot }
      unfold Compose.lostPost
      split
      · exact hheard.congr rfl
      · exact (hheard.modify dispatch.ref Entry.setUnknown rfl SendState.noConfusion).finish
          dispatch
    · next hlost =>
      -- the refused POST is not one of an entry in doubt
      have hne : ref ≠ dispatch.ref := by
        rintro rfl
        refine hlost (hspares i status code retryAfter dispatch rfl htask ?_)
        rwa [show (c.heap dispatch.ref).key = identity.key from congrArg Identity.key h.same]
      have hassigned : ∀ f, Doubted n ref identity ((c.take i).modify dispatch.ref f) :=
        fun f => htake.congr (Prod.ext (update_of_ne hne ..) rfl)
      unfold Compose.refusedPost
      split
      · exact (hassigned _).finishOther hne none
      · exact (hassigned _).finishOther hne _

theorem readStatus (other : ℕ) (result : ApiResult) :
    Doubted n ref identity (c.readStatus other result) := by
  cases result with
  | ok operation => exact h.receiveAnswer other operation
  | error status code retryAfter =>
    simp only [Compose.readStatus]
    split
    · exact h.modify _ _ rfl SendState.noConfusion
    · exact h

end

end Doubted

/-- The events of a stretch in which an entry is followed: ordinary ones, within one run of the
phone's JavaScript, that refuse no POST in doubt. -/
def Follows (c : Compose) (e : Env × Event) : Prop :=
  Ordinary c e ∧ e.2 ≠ .restart ∧ SparesDoubt c e

theorem closed_doubted {n ref : ℕ} {identity : Identity} {first : Compose} {e : Env × Event}
    (he : Follows first e) (hdoubt : inDoubt identity.key first.heard) :
    ClosedOver first e (fun x c => Sound x c ∧ Indexed x c) fun _ c => Doubted n ref identity c := by
  have hnot : ∀ {p : Prop}, ¬ Ordinary first e → p := fun hne => absurd he.1 hne
  exact
    { say := fun _ _ h => h.congr rfl
      persist := fun _ h => h.congr rfl
      load := fun _ h => h.load
      track := fun _ _ h => h.modify _ _ rfl id
      setChecking := fun _ _ _ h => h.modify _ _ rfl id
      join := fun _ _ h _ _ => h.modify _ _ rfl id
      receive := fun operation _ h _ _ => h.receive _ operation
      status := fun _ _ h _ _ _ => h.congr rfl
      checkDispatch := fun _ _ hs h hfiled _ _ _ => by
        obtain ⟨d, a, hslot⟩ := hfiled
        exact h.post hs.2 (hs.2.found d a _ hslot).1
      enter := fun sequence value _ hs h _ _ _ _ _ => h.add (hs.1.live _ h.mem) _ _ sequence value
      sendDispatch := fun _ hs h => h.post hs.2 (hs.2.running _ rfl)
      wait := fun _ _ h => h.congr rfl
      addDraft := fun _ _ _ _ _ h _ _ => h.congr rfl
      polled := fun _ h _ => h.congr rfl
      timer := fun {c i dispatch} hs h htask => by
        have hmem : dispatch.ref ∈ c.entries := hs.2.tasks _ (mem_of_getElem? htask)
        have htake : Doubted n ref identity (c.take i) := h.congr rfl
        exact htake.post (hs.2.take htask) hmem
      readStatus := fun {c i other next} result _ h _ => by
        have htake : Doubted n ref identity (c.take i) := h.congr rfl
        exact htake.readStatus other result
      posted := fun {i dispatch result} _ h hposted htask => by
        obtain ⟨env, event⟩ := e
        obtain rfl : event = .posted i result := hposted
        exact h.answerPost hdoubt htask he.2.2
      discardEntry := fun _ _ _ hdiscard _ _ => hnot (by simp [Ordinary, hdiscard])
      dropDraft := fun _ _ hdiscard _ _ => hnot (by simp [Ordinary, hdiscard])
      clear := fun hreset _ _ => hnot (by simp [Ordinary, hreset])
      restart := fun hrestart _ _ => absurd hrestart he.2.1 }

/-- **A send in doubt.** From a state that ordinary events lead to, on a stretch in which the key of
an entry stays in doubt and no POST in doubt is refused: the entry does not become failed and is not
forgotten, a request for its attempt finds it, and every POST for its attempt carries its key. -/
theorem doubted_of_run {c c' : Compose} {es es' : List (Env × Event)} {ref : ℕ}
    (hrun : Run (Within Ordinary fun c e c' => c.step e = c') {} es c) (hmem : ref ∈ c.entries)
    (hdoubt : inDoubt (c.heap ref).key c.heard) (hstate : (c.heap ref).state ≠ .failed)
    (hstretch : Run (Keeping (fun c' => inDoubt (c.heap ref).key c'.heard)
      (Within Follows fun c e c' => c.step e = c')) c es' c') :
    ref ∈ c'.entries ∧ (c'.heap ref).state ≠ .failed ∧
      (c'.heap ref).toIdentity = (c.heap ref).toIdentity ∧
      c'.slot (c.heap ref).draftId (c.heap ref).attempt = some ref ∧
      ∀ post ∈ c'.posts.drop c.posts.length, post.draftId = (c.heap ref).draftId →
        post.attempt = (c.heap ref).attempt → post.key = (c.heap ref).key := by
  obtain ⟨hsound, hindexed⟩ := indexed_of_run hrun
  have hloaded : c.loaded = true := by
    by_contra hfalse
    have hempty := (hindexed.unloaded (by simpa using hfalse)).1
    rw [hempty] at hmem
    cases hmem
  have hinv := hstretch.invariant
    (fun c' => ((Sound none c' ∧ Indexed none c') ∧
      Doubted c.posts.length ref (c.heap ref).toIdentity c') ∧
      inDoubt (c.heap ref).key c'.heard) ?_ ?_
  · obtain ⟨⟨⟨-, hindexed'⟩, h⟩, hdoubt'⟩ := hinv
    refine ⟨h.mem, h.state hdoubt', h.same, ?_, h.posts⟩
    have hfiled := hindexed'.filed ref h.mem
    rwa [congrArg Identity.draftId h.same, congrArg Identity.attempt h.same] at hfiled
  · rintro c₁ e _ ⟨h, hdoubt₁⟩ ⟨⟨he, rfl⟩, hdoubt₂⟩
    exact ⟨((closed_doubted he hdoubt₁).and (closed_indexed he.1)).step h, hdoubt₂⟩
  · exact ⟨⟨⟨hsound, hindexed⟩, hloaded, hmem, rfl, fun _ => hstate, by simp⟩, hdoubt⟩

def inDoubtAfter : List (Env × Event) :=
  [(Sample.env 1000, Sample.draft), (Sample.env 2000, Sample.send 2 0),
   (Sample.env 17000, .posted 0 (.error 504 none 0))]

/-- After `inDoubtAfter` the POST is repeated, with the same key. -/
theorem doubted_of_run_repeated :
    let c := inDoubtAfter.foldl Compose.step {}
    let c' := c.step (Sample.env 18000, .timer 0)
    c'.posts.length = 2 ∧ (c'.heap 0).state ≠ .failed ∧
      ∀ post ∈ c'.posts.drop 1, post.draftId = 1 → post.attempt = 0 →
        post.key = newKey 2000 [] := by
  intro c c'
  have hrun : Run (Within Ordinary fun c e c' => c.step e = c') {} inDoubtAfter c :=
    (((Run.nil _).snoc ⟨rfl, rfl⟩).snoc ⟨trivial, rfl⟩).snoc ⟨trivial, rfl⟩
  have hstretch : Run (Keeping (fun c' => inDoubt (c.heap 0).key c'.heard)
      (Within Follows fun c e c' => c.step e = c')) c [(Sample.env 18000, .timer 0)] c' := by
    refine (Run.nil _).snoc ⟨⟨⟨trivial, nofun, ?_⟩, rfl⟩, by decide⟩
    intro i status code retryAfter dispatch he
    cases he
  have h := doubted_of_run hrun (by decide) (by decide) (by decide) hstretch
  exact ⟨by decide, h.2.1, h.2.2.2.2⟩

/-- After `inDoubtAfter` the repetition is refused for its rate: an entry whose first POST may have
been accepted has failed, and the watch is told that it may be sent again. -/
theorem failed_in_doubt :
    ¬ ∀ (es : List (Env × Event)) (e : Env × Event) (ref : ℕ),
      ref ∈ (es.foldl Compose.step {}).entries →
      inDoubt ((es.foldl Compose.step {}).heap ref).key (es.foldl Compose.step {}).heard →
      inDoubt ((es.foldl Compose.step {}).heap ref).key ((es ++ [e]).foldl Compose.step {}).heard →
      ((es.foldl Compose.step {}).heap ref).state ≠ .failed →
      (((es ++ [e]).foldl Compose.step {}).heap ref).state ≠ .failed := by
  intro h
  have hfailed := h (inDoubtAfter ++ [(Sample.env 18000, .timer 0)])
    (Sample.env 19000, .posted 0 (.error 429 (some .rateLimitExceeded) 30)) 0
    (by decide) (by decide) (by decide) (by decide)
  exact hfailed (by decide)

end Phone
