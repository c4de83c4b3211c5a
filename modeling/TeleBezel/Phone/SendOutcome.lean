import TeleBezel.Lib.Transition
import TeleBezel.Phone.Callbacks

/-!
# What becomes of an entry

The callbacks of the composer write to the same entry in any order. `apply` leaves a sent entry
sent, and so does the status request that finds nothing; the branches of `dispatch` for an answer
without an operation assign the state and ask nothing.
-/

namespace Phone

open Transition

/-- Every entry there is in the first state stands in the relation to what it is in the second. -/
def Along (R : Entry → Entry → Prop) (c c' : Compose) : Prop :=
  c.next ≤ c'.next ∧ ∀ ref < c.next, R (c.heap ref) (c'.heap ref)

/-- The relations that the assignments respect, but for those in `dispatch`. -/
structure Tame (R : Entry → Entry → Prop) : Prop where
  refl : ∀ entry, R entry entry
  trans : ∀ {a b c}, R a b → R b c → R a c
  apply : ∀ entry operation, R entry (entry.apply operation)
  setUnknown : ∀ entry : Entry, entry.state ≠ .sent → R entry entry.setUnknown
  waiters : ∀ (entry : Entry) waiters, R entry (entry.setWaiters waiters)
  tracked : ∀ (entry : Entry) now, R entry (entry.setTracked now)
  checking : ∀ (entry : Entry) checking, R entry (entry.setChecking checking)
  discard : ∀ entry : Entry, R entry entry.discard

/-- The assignments of `dispatch` to the entry of a POST, for one answer, respect a relation. -/
def Assigns (R : Entry → Entry → Prop) (env : Env) (dispatch : Dispatch) (entry : Entry) :
    ApiResult → Prop
  | .ok _ => True
  | .error status code retryAfter =>
    if lost status code then Compose.again env dispatch ∨ R entry entry.setUnknown
    else if status = 429 then R entry (entry.setRateLimited retryAfter)
    else R entry (entry.setRefused status code)

section Along

variable {R : Entry → Entry → Prop} {env : Env} {c c' c'' : Compose}

section

variable (hR : Tame R)
include hR

theorem Along.trans (h : Along R c c') (h' : Along R c' c'') : Along R c c'' :=
  ⟨h.1.trans h'.1, fun ref href =>
    hR.trans (h.2 ref href) (h'.2 ref (lt_of_lt_of_le href h.1))⟩

theorem along_of_eq (hnext : c'.next = c.next) (hheap : c'.heap = c.heap) :
    Along R c c' :=
  ⟨hnext.ge, fun ref _ => by rw [hheap]; exact hR.refl _⟩

theorem Along.same (h : Along R c c') (hnext : c''.next = c'.next) (hheap : c''.heap = c'.heap) :
    Along R c c'' :=
  h.trans hR (along_of_eq hR hnext hheap)

variable (ref : ℕ)

theorem along_modify (f : Entry → Entry)
    (h : R (c.heap ref) (f (c.heap ref))) : Along R c (c.modify ref f) := by
  refine ⟨le_rfl, fun other _ => ?_⟩
  rw [Compose.modify_heap, Function.update_apply]
  split_ifs with hother
  · rwa [hother]
  · exact hR.refl _

theorem along_foldl {α : Type*} (f : Compose → α → Compose)
    (h : ∀ c a, Along R c (f c a)) (as : List α) (c : Compose) : Along R c (as.foldl f c) := by
  induction as generalizing c with
  | nil => exact along_of_eq hR rfl rfl
  | cons a as ih => exact (h c a).trans hR (ih _)

theorem along_restore (stored : Stored) : Along R c (c.restore stored) := by
  refine ⟨Nat.le_succ _, fun ref href => ?_⟩
  rw [Compose.restore_heap, Function.update_of_ne href.ne]
  exact hR.refl _

theorem along_load : Along R c (c.load env) := by
  unfold Compose.load
  split_ifs
  · exact along_of_eq hR rfl rfl
  · have hempty : Along R c { c with loaded := true, entries := [] } := along_of_eq hR rfl rfl
    exact hempty.trans hR ((along_foldl hR _ (fun c stored => along_restore hR stored) _ _).same hR
      rfl rfl)

theorem along_receive (operation : Operation) :
    Along R c (c.receive ref operation) :=
  Along.trans hR (along_of_eq hR rfl rfl)
    (along_modify (c := c.hearOperation ref operation) hR ref _ (hR.apply _ _))

theorem along_receiveAnswer (operation : Option Operation) :
    Along R c (c.receiveAnswer ref operation) := by
  cases operation with
  | none => exact along_of_eq hR rfl rfl
  | some operation => exact along_receive hR ref operation

theorem along_dropWaiters : Along R c (c.dropWaiters ref) :=
  along_modify hR ref _ (hR.waiters _ _)

theorem along_checked (next : Next) : Along R c (c.checked env ref next) :=
  Compose.checked_rule (fun _ h => h.same hR rfl rfl)
    (fun h => h.trans hR (along_modify hR ref _ (hR.tracked _ _)))
    (fun h => h.trans hR (along_modify hR ref _ (hR.checking _ false))) (along_of_eq hR rfl rfl)
    next

theorem along_finish (dispatch : Dispatch) (code : Option ResultCode) :
    Along R c (c.finish env dispatch code) := by
  unfold Compose.finish
  split
  · exact (along_dropWaiters hR _).same hR rfl rfl
  · exact (along_of_eq hR rfl rfl).trans hR
      ((along_dropWaiters hR dispatch.ref).same hR rfl rfl)
  · exact Along.trans hR (along_of_eq hR rfl rfl) (along_checked (c := c.persist env) hR _ _)

theorem along_answerPost (dispatch : Dispatch) (result : ApiResult)
    (h : Assigns R env dispatch (c.heap dispatch.ref) result) :
    Along R c (c.answerPost env dispatch result) := by
  cases result with
  | ok operation => exact (along_receiveAnswer hR _ _).trans hR (along_finish hR _ _)
  | error status code retryAfter =>
    simp only [Compose.answerPost, Compose.lostPost, Compose.refusedPost]
    simp only [Assigns] at h
    split_ifs at h ⊢ with hlost hagain hlimited
    · exact along_of_eq hR rfl rfl
    · refine Along.trans hR ?_ (along_finish hR _ _)
      exact Along.trans hR (along_of_eq hR rfl rfl)
        (along_modify (c := c.hear _) hR _ _ (h.resolve_left hagain))
    · exact (along_modify hR _ _ h).trans hR (along_finish hR _ _)
    · exact (along_modify hR _ _ h).trans hR (along_finish hR _ _)

theorem along_readStatus (result : ApiResult) :
    Along R c (c.readStatus ref result) := by
  cases result with
  | ok operation => exact along_receiveAnswer hR _ _
  | error status code retryAfter =>
    simp only [Compose.readStatus]
    split_ifs with h
    · exact along_modify hR _ _ (hR.setUnknown _ h.2)
    · exact along_of_eq hR rfl rfl

theorem along_enter (found : Draft) (attempt sequence : ℕ) (value : Settings) :
    Along R c (c.enter env found attempt sequence value) := by
  refine ⟨Nat.le_succ _, fun ref href => ?_⟩
  have hheap : (c.enter env found attempt sequence value).heap ref = c.heap ref :=
    Function.update_of_ne href.ne _ _
  rw [hheap]
  exact hR.refl _

theorem along_discardEntry : Along R c (c.discardEntry ref) := by
  unfold Compose.discardEntry
  split_ifs
  · exact (along_modify hR ref _ (hR.discard _)).same hR rfl rfl
  · exact along_of_eq hR rfl rfl

theorem along_dropDraft (draftId : ℕ) : Along R c (c.dropDraft draftId) := by
  unfold Compose.dropDraft
  split_ifs <;> exact along_of_eq hR rfl rfl

/-- **Assignments of a step.** A step respects a relation if the answer to a POST, where the step
is one, makes only assignments that do. -/
theorem along_step (e : Env × Event)
    (h : ∀ i result dispatch, e.2 = .posted i result → c.tasks[i]? = some (.post dispatch) →
      Assigns R e.1 dispatch (c.heap dispatch.ref) result) :
    Along R c (c.step e) := by
  refine Closed.step (P := fun _ c' => Along R c c') ?_ (along_of_eq hR rfl rfl)
  exact
    { say := fun _ _ h => h.same hR rfl rfl
      persist := fun _ h => h.same hR rfl rfl
      load := fun _ h => h.trans hR (along_load hR)
      track := fun ref _ h => h.trans hR (along_modify hR ref _ (hR.tracked _ _))
      setChecking := fun ref _ _ h => h.trans hR (along_modify hR ref _ (hR.checking _ _))
      join := fun _ _ h _ _ => h.trans hR (along_modify hR _ _ (hR.waiters _ _))
      receive := fun operation _ h _ _ => h.trans hR (along_receive hR _ operation)
      status := fun _ _ h _ _ _ => h.same hR rfl rfl
      checkDispatch := fun _ _ _ h _ _ _ _ => h.same hR rfl rfl
      enter := fun _ _ _ _ h _ _ _ _ _ => h.trans hR (along_enter hR _ _ _ _)
      sendDispatch := fun _ _ h => h.same hR rfl rfl
      wait := fun _ _ h => h.same hR rfl rfl
      addDraft := fun _ _ _ _ _ h _ _ => h.same hR rfl rfl
      polled := fun _ h _ => h.same hR rfl rfl
      timer := fun _ h _ => h.same hR rfl rfl
      readStatus := fun result _ h _ => h.trans hR (Along.trans hR (along_of_eq hR rfl rfl)
        (along_readStatus (c := Compose.take _ _) hR _ result))
      posted := fun _ _ he htask => Along.trans hR (along_of_eq hR rfl rfl)
        (along_answerPost (c := c.take _) hR _ _ (h _ _ _ he htask))
      discardEntry := fun _ _ ref _ _ h => h.trans hR (along_discardEntry hR ref)
      dropDraft := fun _ draftId _ _ h => h.trans hR (along_dropDraft hR draftId)
      clear := fun _ _ h => h.same hR rfl rfl
      restart := fun _ _ h => h.same hR rfl rfl }

end

end Along

theorem tame_identity : Tame fun entry entry' => entry'.toIdentity = entry.toIdentity where
  refl _ := rfl
  trans h h' := h'.trans h
  apply entry operation := entry.toIdentity_apply operation
  setUnknown _ _ := rfl
  waiters _ _ := rfl
  tracked _ _ := rfl
  checking _ _ := rfl
  discard _ := rfl

theorem toIdentity_step (c : Compose) (e : Env × Event) {ref : ℕ} (href : ref < c.next) :
    ((c.step e).heap ref).toIdentity = (c.heap ref).toIdentity := by
  refine (along_step tame_identity e ?_).2 ref href
  intro i result dispatch _ _
  unfold Assigns
  split
  · trivial
  · split_ifs
    · exact .inr rfl
    · rfl
    · rfl

section Sent

def StaysSent (entry entry' : Entry) : Prop := entry.state = .sent → entry'.state = .sent

theorem tame_staysSent : Tame StaysSent where
  refl _ := id
  trans h h' := h' ∘ h
  apply entry operation := entry.state_apply_of_sent operation
  setUnknown _ hne h := absurd h hne
  waiters _ _ := id
  tracked _ _ := id
  checking _ _ := id
  discard _ := id

/-- The POSTs that do not overrule a sent entry: those of other entries, and those answered with
an operation or lost with a repetition to come. -/
def KeepsSent (c : Compose) (e : Env × Event) : Prop :=
  ∀ i result dispatch, e.2 = .posted i result → c.tasks[i]? = some (.post dispatch) →
    (c.heap dispatch.ref).state = .sent →
    match result with
    | .ok _ => True
    | .error status code _ => lost status code ∧ Compose.again e.1 dispatch

theorem assigns_staysSent_iff (env : Env) (dispatch : Dispatch) {entry : Entry}
    (hsent : entry.state = .sent) (result : ApiResult) :
    Assigns StaysSent env dispatch entry result ↔
      match result with
      | .ok _ => True
      | .error status code _ => lost status code ∧ Compose.again env dispatch := by
  have hunknown : ¬ StaysSent entry entry.setUnknown := fun h => SendState.noConfusion (h hsent)
  cases result with
  | ok operation => exact Iff.rfl
  | error status code retryAfter =>
    have hlimited : ¬ StaysSent entry (entry.setRateLimited retryAfter) :=
      fun h => SendState.noConfusion (h hsent)
    have hrefused : ¬ StaysSent entry (entry.setRefused status code) :=
      fun h => SendState.noConfusion (h hsent)
    simp only [Assigns]
    split_ifs with h h'
    · simp [h, hunknown]
    · simp [h, hlimited]
    · simp [h, hrefused]

theorem along_staysSent_of_keepsSent {c : Compose} {e : Env × Event} (h : KeepsSent c e) :
    Along StaysSent c (c.step e) := by
  refine along_step tame_staysSent e fun i result dispatch he htask => ?_
  by_cases hsent : (c.heap dispatch.ref).state = .sent
  · exact (assigns_staysSent_iff _ _ hsent _).2 (h i result dispatch he htask hsent)
  -- an entry that is not sent is asked nothing
  have hany : ∀ entry', StaysSent (c.heap dispatch.ref) entry' := fun _ h => absurd h hsent
  unfold Assigns
  split
  · trivial
  · split_ifs
    · exact .inr (hany _)
    · exact hany _
    · exact hany _

/-- **Sent is final for such answers.** In a run in which no POST of an entry that is sent already
is refused, or lost without a repetition to come, the entry stays sent. -/
theorem sent_of_run {c c' : Compose} {es : List (Env × Event)} {ref : ℕ} (href : ref < c.next)
    (hsent : (c.heap ref).state = .sent)
    (hrun : Run (Within KeepsSent fun c e c' => c.step e = c') c es c') :
    (c'.heap ref).state = .sent := by
  have h := hrun.invariant (fun c => ref < c.next ∧ (c.heap ref).state = .sent) ?_ ⟨href, hsent⟩
  · exact h.2
  rintro c e _ ⟨hlt, hs⟩ ⟨hok, rfl⟩
  have hstep := along_staysSent_of_keepsSent hok
  exact ⟨hlt.trans_le hstep.1, hstep.2 ref hlt hs⟩

/-- Two checks of an entry that a restart has cut off, both under way; the first is answered. -/
def twoChecks : List (Env × Event) :=
  [(Sample.env 1000, Sample.draft), (Sample.env 2000, Sample.send 2 0),
   (Sample.env 3000, .restart),
   (Sample.env 4000, .sendCheck 3 1), (Sample.env 4100, .sendCheck 4 1),
   (Sample.env 5000, .posted 0 (Sample.operation .sent))]

/-- The second check of `twoChecks` is answered as well. -/
theorem sent_of_run_twoChecks :
    (((twoChecks.foldl Compose.step {}).step
      (Sample.env 6000, .posted 0 (Sample.operation .unknown))).heap 1).state = .sent := by
  refine sent_of_run (c := twoChecks.foldl Compose.step {}) (by decide) (by decide)
    ((Run.nil _).snoc ⟨?_, rfl⟩)
  rintro i result dispatch he - -
  cases he
  trivial

/-- The second check of `twoChecks` is refused for its rate: a sent entry has failed. -/
theorem failed_after_sent :
    ¬ ∀ (es : List (Env × Event)) (e : Env × Event) (ref : ℕ),
      ((es.foldl Compose.step {}).heap ref).state = .sent →
        (((es ++ [e]).foldl Compose.step {}).heap ref).state = .sent := by
  intro h
  have hsent := h twoChecks
    (Sample.env 6000, .posted 0 (.error 429 (some .rateLimitExceeded) 30)) 1 (by decide)
  exact absurd hsent (by decide)

end Sent

end Phone
