import TeleBezel.Watch.RequestMoves

/-!
# The timer and the attempts of the request layer

After every operation the timer is armed exactly when a slot is in use, for the least time that is
left to one; a request is sent at most as often as it may be, and one that is not to be sent again
is not, unless its send has failed. A request whose answer has begun is sent again all the same when
it waits in the queue: `tb_requests_outbox_ready` and `tb_requests_tick` look at `queued` and not at
the chunks that have come, other than `tb_requests_send_failed`.
-/

open List

namespace Watch

open Word Transition TbRequestLayer Function

variable {α : Type} {ports : TbRequestPorts} {s s' : TbRequestLayer α} {i : Fin 4}
  {slot : TbRequestSlot α}

section Timer

/-- The timer is what `arm` makes it, at the last reading of the clock. -/
def Rearmed (ports : TbRequestPorts) (s : TbRequestLayer α) : Prop :=
  s.timer = Deadline.delay (ports.now (s.readings - 1)) (deadlines s.slots)

/-- What an operation does to the timer: it is armed, or nothing has changed. A callback may have
been called. -/
structure Served (ports : TbRequestPorts) (s s' : TbRequestLayer α) : Prop where
  armed : Rearmed ports s' ∨ s'.slots = s.slots ∧ s'.timer = s.timer ∧
    s'.readings = s.readings ∧ s'.stack = s.stack
  stack : s'.stack = s.stack ∨ ∃ outcome, s'.stack = .callback outcome :: s.stack

def Freed (s s' : TbRequestLayer α) : Prop :=
  ∀ j, (s.slots j).active = false → (s'.slots j).active = false

theorem rearmed_arm (s : TbRequestLayer α) : Rearmed ports (s.arm ports) := rfl

theorem rearmed_call {response : TbResponse} (h : Rearmed ports s) :
    Rearmed ports (s.call slot response) := by
  unfold call
  split
  · exact h
  · exact h

theorem stack_call (s : TbRequestLayer α) (slot : TbRequestSlot α) (response : TbResponse) :
    (s.call slot response).stack = s.stack ∨
      ∃ outcome, (s.call slot response).stack = .callback outcome :: s.stack := by
  unfold call
  split
  · exact Or.inl rfl
  · exact Or.inr ⟨_, rfl⟩

theorem served_same (hview : (s'.slots, s'.timer, s'.readings, s'.stack) =
    (s.slots, s.timer, s.readings, s.stack)) : Served ports s s' := by
  simp only [Prod.mk.injEq] at hview
  exact ⟨Or.inr hview, Or.inl hview.2.2.2⟩

section

variable (s : TbRequestLayer α)

section

variable (i : Fin 4) (outcome : TbRequestOutcome) (result : ℤ)

theorem rearmed_complete : Rearmed ports (s.complete ports i outcome result) := by
  unfold complete
  dsimp only
  split
  · rfl
  · exact rearmed_call rfl

theorem served_complete : Served ports s (s.complete ports i outcome result) := by
  refine ⟨Or.inl (rearmed_complete s i outcome result), ?_⟩
  unfold complete
  dsimp only
  split
  · exact Or.inl rfl
  · exact stack_call _ _ _

theorem freed_complete : Freed s (s.complete ports i outcome result) := by
  have hslots : (s.complete ports i outcome result).slots =
      update s.slots i { s.slots i with active := false } := by
    unfold complete
    dsimp only
    split
    · rfl
    · simp
  intro j hj
  rw [hslots]
  by_cases heq : j = i
  · subst heq
    simp
  · rw [update_of_ne heq]
    exact hj

end

theorem rearmed_attempt (i : Fin 4) :
    Rearmed ports (s.attempt ports i) := by
  obtain ⟨slot, results, sends, -, hcase⟩ := attempted_attempt ports s i
  rcases hcase with ⟨-, heq⟩ | ⟨-, outcome, -, heq⟩
  · rw [heq]
    exact rearmed_arm _
  · rw [heq]
    exact rearmed_complete _ i outcome 0

theorem served_attempt (i : Fin 4) :
    Served ports s (s.attempt ports i) := by
  obtain ⟨slot, results, sends, -, hcase⟩ := attempted_attempt ports s i
  rcases hcase with ⟨-, heq⟩ | ⟨-, outcome, -, heq⟩
  · refine ⟨Or.inl (rearmed_attempt s i), Or.inl ?_⟩
    rw [heq]
    rfl
  · refine ⟨Or.inl (rearmed_attempt s i), ?_⟩
    rw [heq]
    exact (served_complete _ i outcome 0).stack

theorem freed_attempt (i : Fin 4) : Freed s (s.attempt ports i) := by
  obtain ⟨slot, results, sends, hsent, hcase⟩ := attempted_attempt ports s i
  have hafter : Freed s ((s.read ports).2.afterSends i slot results sends) := by
    intro j hj
    show (update s.slots i slot j).active = false
    by_cases heq : j = i
    · subst heq
      rw [update_self, hsent.active]
      exact hj
    · rw [update_of_ne heq]
      exact hj
  intro j hj
  rcases hcase with ⟨-, heq⟩ | ⟨-, outcome, -, heq⟩
  · rw [heq]
    exact hafter j hj
  · rw [heq]
    exact freed_complete _ i outcome 0 j (hafter j hj)

theorem served_submit (args : Option α) (timeout maxAttempts : ℕ)
    (resendOnTimeout : Bool) (callback : Option ℕ) : Served ports s
      (s.tbRequestsSubmit ports args timeout maxAttempts resendOnTimeout callback).1 := by
  unfold tbRequestsSubmit
  split
  · exact served_same rfl
  · split
    · exact served_same rfl
    · dsimp only
      split
      · exact ⟨Or.inl (rearmed_attempt _ _), (served_attempt _ _).stack⟩
      · exact ⟨Or.inl (rearmed_attempt _ _), (served_attempt _ _).stack⟩

theorem served_chunk (sequence : ℕ) (chunk : TbResponse) (total : ℕ) :
    Served ports s (s.tbRequestsChunk ports sequence chunk total) := by
  unfold tbRequestsChunk
  split
  · exact served_same rfl
  · dsimp only
    split
    · exact served_complete _ _ _ _
    · split
      · exact ⟨Or.inl (rearmed_call (rearmed_arm _)), stack_call _ _ _⟩
      · exact ⟨Or.inl (rearmed_call (rearmed_arm _)), stack_call _ _ _⟩

theorem served_sendFailed (sequence : ℕ) (unreachable : Bool) :
    Served ports s (s.tbRequestsSendFailed ports sequence unreachable) := by
  unfold tbRequestsSendFailed
  split
  · exact served_same rfl
  · dsimp only
    split
    · exact served_same rfl
    · exact ⟨Or.inl (rearmed_attempt _ _), (served_attempt _ _).stack⟩

theorem served_outboxReady :
    Served ports s (s.tbRequestsOutboxReady ports) := by
  unfold tbRequestsOutboxReady
  split
  · exact served_same rfl
  · exact served_attempt _ _

theorem served_cancel (sequence : ℕ) :
    Served ports s (s.tbRequestsCancel ports sequence) := by
  unfold tbRequestsCancel
  split
  · exact served_same rfl
  · exact served_complete _ _ _ _

theorem served_tickSlot (i : Fin 4) (now : ℕ) :
    Served ports s (s.tickSlot ports i now) := by
  unfold tickSlot
  dsimp only
  split
  · exact served_same rfl
  · split
    · exact ⟨Or.inl (rearmed_attempt _ _), (served_attempt _ _).stack⟩
    · exact served_complete _ _ _ _

theorem served_cancelSlot (i : Fin 4) :
    Served ports s (s.cancelSlot ports i) := by
  unfold cancelSlot
  split
  · exact served_complete _ _ _ _
  · exact served_same rfl

end

theorem freed_put (i : Fin 4) (slot : TbRequestSlot α) (h : slot.active → (s.slots i).active) :
    Freed s (s.put i slot) := by
  intro j hj
  show (update s.slots i slot j).active = false
  by_cases heq : j = i
  · subst heq
    rw [update_self]
    by_contra hactive
    rw [h (by simpa using hactive)] at hj
    exact absurd hj (by decide)
  · rw [update_of_ne heq]
    exact hj

theorem Freed.trans {s'' : TbRequestLayer α} (h : Freed s s') (h' : Freed s' s'') : Freed s s'' :=
  fun j hj => h' j (h j hj)

theorem freed_same (hslots : s'.slots = s.slots) : Freed s s' := by
  intro j hj
  rw [hslots]
  exact hj

section

variable (s : TbRequestLayer α)

theorem freed_chunk (sequence : ℕ) (chunk : TbResponse) (total : ℕ) :
    Freed s (s.tbRequestsChunk ports sequence chunk total) := by
  unfold TbRequestLayer.tbRequestsChunk
  split
  · exact freed_same rfl
  · rename_i i _
    dsimp only
    split
    · exact freed_complete _ _ _ _
    · split
      · refine Freed.trans (freed_put i { s.slots i with active := false } ?_) (freed_same ?_)
        · simp
        · simp
      · refine Freed.trans (freed_put i { s.slots i with
            nextChunk := (s.slots i).nextChunk + 1
            deadline := uint32 (ports.now s.readings + (s.slots i).timeout : ℕ) } ?_) (freed_same ?_)
        · simp
        · simp [TbRequestLayer.read, TbRequestLayer.note]

theorem freed_sendFailed (sequence : ℕ) (unreachable : Bool) :
    Freed s (s.tbRequestsSendFailed ports sequence unreachable) := by
  unfold tbRequestsSendFailed
  split
  · exact freed_same rfl
  · rename_i i _
    dsimp only
    split
    · exact freed_same rfl
    · refine Freed.trans (freed_put i { s.slots i with unreachable } ?_)
        (Freed.trans (freed_same ?_) (freed_attempt _ i))
      · exact id
      · rfl

theorem freed_outboxReady : Freed s (s.tbRequestsOutboxReady ports) := by
  unfold tbRequestsOutboxReady
  split
  · exact freed_same rfl
  · exact freed_attempt _ _

theorem freed_cancel (sequence : ℕ) :
    Freed s (s.tbRequestsCancel ports sequence) := by
  unfold tbRequestsCancel
  split
  · exact freed_same rfl
  · exact freed_complete _ _ _ _

theorem freed_tickSlot (i : Fin 4) (now : ℕ) :
    Freed s (s.tickSlot ports i now) := by
  unfold tickSlot
  dsimp only
  split
  · exact freed_same rfl
  · split
    · refine Freed.trans (freed_put i { s.slots i with unreachable := false } ?_)
        (freed_attempt _ i)
      exact id
    · exact freed_complete _ _ _ _

theorem freed_cancelSlot (i : Fin 4) :
    Freed s (s.cancelSlot ports i) := by
  unfold cancelSlot
  split
  · exact freed_complete _ _ _ _
  · exact freed_same rfl

theorem active_cancelSlot (i : Fin 4) :
    ((s.cancelSlot ports i).slots i).active = false := by
  unfold cancelSlot
  split
  · unfold complete
    dsimp only
    split
    · simp
    · simp
  · rename_i hfree
    simpa using hfree

end

/-- The timer is armed as it should be, and what `tb_requests_cancel_all` has gone through is not in
use. -/
structure Timed (ports : TbRequestPorts) (s : TbRequestLayer α) : Prop where
  armed : s.callable → Rearmed ports s
  cancelled : ∀ index, .cancelAll index ∈ s.stack → ∀ j : Fin 4, j.val < index →
    (s.slots j).active = false

/-- The condition on an event: what it sends from the queue has had no chunk, and nothing is
submitted while everything is cancelled. -/
def Unbegun (s : TbRequestLayer α) : RequestEvent α → Prop
  | .submit .. => ∀ index, .cancelAll index ∉ s.stack
  | event => QueueMeets (fun slot => slot.nextChunk = 0) s event

theorem Served.armed_of_callable (h : Served ports s s') (harmed : s.callable → Rearmed ports s)
    (hcallable : s'.callable) : Rearmed ports s' := by
  rcases h.armed with hnow | ⟨hslots, htimer, hreadings, hstack⟩
  · exact hnow
  · have hbefore : s.callable := by
      unfold callable at hcallable ⊢
      rw [← hstack]
      exact hcallable
    unfold Rearmed
    rw [hslots, htimer, hreadings]
    exact harmed hbefore

theorem Served.cancelAll_mem (h : Served ports s s') {index : ℕ}
    (hmem : .cancelAll index ∈ s'.stack) : .cancelAll index ∈ s.stack := by
  rcases h.stack with heq | ⟨outcome, heq⟩
  · rw [← heq]
    exact hmem
  · rw [heq] at hmem
    simpa using hmem

theorem Timed.served (h : Timed ports s) (hserved : Served ports s s') (hfreed : Freed s s') :
    Timed ports s' where
  armed := hserved.armed_of_callable h.armed
  cancelled := by
    intro index hmem j hj
    exact hfreed j (h.cancelled index (hserved.cancelAll_mem hmem) j hj)

theorem Timed.submitted (h : Timed ports s) (hserved : Served ports s s')
    (hnone : ∀ index, .cancelAll index ∉ s.stack) : Timed ports s' where
  armed := hserved.armed_of_callable h.armed
  cancelled := by
    intro index hmem
    exact absurd (hserved.cancelAll_mem hmem) (hnone index)

theorem delay_eq_none {slots : Fin 4 → TbRequestSlot α} (h : ∀ j, (slots j).active = false) (now : ℕ) :
    Deadline.delay now (deadlines slots) = none :=
  (Deadline.delay_spec now _).1.mpr (by simp [deadlines, h])

theorem timed_resume (h : Timed ports s) : Timed ports (s.resume ports) := by
  unfold resume
  split
  · rename_i index now rest hstack
    have hcancelled : ∀ k, .cancelAll k ∈ rest → ∀ j : Fin 4, j.val < k →
        (s.slots j).active = false := by
      intro k hmem
      refine h.cancelled k ?_
      rw [hstack]
      exact mem_cons_of_mem _ hmem
    split
    · refine Timed.served ?_ (served_tickSlot _ _ _) (freed_tickSlot _ _ _)
      refine ⟨fun hcallable => absurd hcallable (by simp [callable]), ?_⟩
      intro k hmem
      exact hcancelled k (by simpa using hmem)
    · exact ⟨fun _ => rearmed_arm _, hcancelled⟩
  · rename_i index rest hstack
    have hcancelled : ∀ k, .cancelAll k ∈ rest → ∀ j : Fin 4, j.val < k →
        (s.slots j).active = false := by
      intro k hmem
      refine h.cancelled k ?_
      rw [hstack]
      exact mem_cons_of_mem _ hmem
    have hbelow := h.cancelled index (by rw [hstack]; exact mem_cons_self)
    split
    · rename_i hless
      let before : TbRequestLayer α := { s with stack := .cancelAll (index + 1) :: rest }
      have hserved : Served ports before (before.cancelSlot ports ⟨index, hless⟩) :=
        served_cancelSlot _ _
      have hfreed : Freed before (before.cancelSlot ports ⟨index, hless⟩) := freed_cancelSlot _ _
      refine ⟨hserved.armed_of_callable ?_, ?_⟩
      · intro hcallable
        exact absurd hcallable (by simp [before, callable])
      · intro k hmem j hj
        have hmem' : .cancelAll k ∈ before.stack := hserved.cancelAll_mem hmem
        rcases mem_cons.mp hmem' with heq | hrest
        · injection heq with hk
          -- the slot at which the loop stands is given up now, those before it were
          by_cases hji : j = ⟨index, hless⟩
          · rw [hji]
            exact active_cancelSlot _ _
          · refine hfreed j (hbelow j ?_)
            have hne : j.val ≠ index := fun hval => hji (Fin.ext hval)
            omega
        · exact hfreed j (hcancelled k hrest j hj)
    · refine ⟨fun _ => ?_, hcancelled⟩
      unfold Rearmed
      rw [delay_eq_none]
      intro j
      exact hbelow j (by omega)
  · exact h

theorem timed_step (h : Timed ports s) {event : RequestEvent α} (hunbegun : Unbegun s event) :
    Timed ports (s.step ports event) := by
  cases event with
  | submit args timeout maxAttempts resendOnTimeout callback =>
    simp only [TbRequestLayer.step]
    split
    · exact h.submitted (served_submit s args timeout maxAttempts resendOnTimeout callback) hunbegun
    · exact h
  | chunk sequence chunk total =>
    simp only [TbRequestLayer.step]
    split
    · exact h.served (served_chunk s sequence chunk total) (freed_chunk s sequence chunk total)
    · exact h
  | sendFailed sequence unreachable =>
    simp only [TbRequestLayer.step]
    split
    · exact h.served (served_sendFailed s sequence unreachable)
        (freed_sendFailed s sequence unreachable)
    · exact h
  | outboxReady =>
    simp only [TbRequestLayer.step]
    split
    · exact h.served (served_outboxReady s) (freed_outboxReady s)
    · exact h
  | tick =>
    simp only [TbRequestLayer.step]
    split
    · refine ⟨fun hcallable => absurd hcallable (by simp [TbRequestLayer.tbRequestsTick,
        TbRequestLayer.callable]), ?_⟩
      intro index hmem
      exact h.cancelled index (by
        simpa [TbRequestLayer.tbRequestsTick, TbRequestLayer.read] using hmem)
    · exact h
  | cancel sequence =>
    simp only [TbRequestLayer.step]
    split
    · exact h.served (served_cancel s sequence) (freed_cancel s sequence)
    · exact h
  | cancelAll =>
    simp only [TbRequestLayer.step]
    split
    · refine ⟨fun hcallable => absurd hcallable (by simp [TbRequestLayer.tbRequestsCancelAll,
        TbRequestLayer.callable]), ?_⟩
      intro index hmem j hj
      rcases mem_cons.mp hmem with heq | hrest
      · injection heq with hzero
        omega
      · exact h.cancelled index hrest j hj
    · exact h
  | ret =>
    simp only [TbRequestLayer.step]
    split
    · rename_i rest hstack
      refine ⟨fun _ => h.armed (by simp [TbRequestLayer.callable, hstack]), ?_⟩
      intro index hmem
      refine h.cancelled index ?_
      rw [hstack]
      exact mem_cons_of_mem _ hmem
    · exact h
  | resume => exact timed_resume h

theorem timed_start : Timed ports ({} : TbRequestLayer α) where
  armed := by
    intro _
    unfold Rearmed
    rw [delay_eq_none]
    intro j
    rfl
  cancelled := by
    intro index hmem
    exact absurd hmem (by simp)

end Timer

section Attempts

variable {notes more : List RequestNote} {results : List TbSendResult}

def attemptsOf (notes : List RequestNote) : ℕ :=
  notes.countP fun note =>
    match note with
    | .sent result => result ≠ .busy
    | _ => false

def outstanding (notes : List RequestNote) : Bool :=
  notes.foldl (fun taken note =>
    match note with
    | .sent .ok => true
    | .sendFailed => false
    | _ => taken) false

def EverySend (Q : List RequestNote → Prop) (notes : List RequestNote) : Prop :=
  ∀ before result, before ++ [.sent result] <+: notes → Q before

variable {Q : List RequestNote → Prop}

theorem EverySend.snoc (h : EverySend Q notes) {note : RequestNote}
    (hnote : ∀ result, note = .sent result → Q notes) : EverySend Q (notes ++ [note]) := by
  intro before result hle
  rcases prefix_concat_iff.mp hle with heq | hle'
  · obtain ⟨rfl, hlast⟩ := append_inj' heq rfl
    injection hlast with hsent
    exact hnote result hsent.symm
  · exact h before result hle'

theorem everySend_nil (Q : List RequestNote → Prop) : EverySend Q [] := by
  intro before result hle
  simp at hle

theorem EverySend.append (h : EverySend Q notes)
    (hmore : ∀ result, .sent result ∉ more) : EverySend Q (notes ++ more) := by
  induction more using List.reverseRecOn with
  | nil => simpa using h
  | append_singleton more note ih =>
    rw [← append_assoc]
    refine (ih fun result hmem => hmore result (mem_append_left _ hmem)).snoc ?_
    rintro result rfl
    exact absurd (by simp) (hmore result)

theorem EverySend.sends (h : EverySend Q notes)
    (hbefore : ∀ before last after, results = before ++ last :: after →
      Q (notes ++ before.map .sent)) : EverySend Q (notes ++ results.map .sent) := by
  induction results using List.reverseRecOn with
  | nil => simpa using h
  | append_singleton results last ih =>
    rw [map_append, ← append_assoc]
    refine EverySend.snoc (ih ?_) ?_
    · rintro before other after rfl
      refine hbefore before other (after ++ [last]) ?_
      simp
    · intro result _
      exact hbefore results last [] rfl

theorem attemptsOf_append (notes more : List RequestNote) :
    attemptsOf (notes ++ more) = attemptsOf notes + attemptsOf more := countP_append

theorem attemptsOf_sent (results : List TbSendResult) :
    attemptsOf (results.map .sent) = results.countP (· ≠ .busy) := by
  unfold attemptsOf
  rw [countP_map]
  rfl

theorem attemptsOf_eq_zero (h : ∀ result, .sent result ∉ notes) : attemptsOf notes = 0 := by
  refine countP_eq_zero.mpr ?_
  intro note hnote
  cases note with
  | sent result => exact absurd hnote (h result)
  | _ => simp

theorem outstanding_snoc (notes : List RequestNote) (note : RequestNote) :
    outstanding (notes ++ [note]) =
      match note with
      | .sent .ok => true
      | .sendFailed => false
      | _ => outstanding notes := by
  unfold outstanding
  rw [foldl_append]
  rfl

theorem outstanding_sends (h : outstanding notes = false) (hnone : ∀ other ∈ results, other ≠ .ok) :
    outstanding (notes ++ results.map .sent) = false := by
  induction results using List.reverseRecOn with
  | nil => simpa using h
  | append_singleton results last ih =>
    rw [map_append, ← append_assoc, map_singleton, outstanding_snoc]
    have hlast : last ≠ .ok := hnone last (by simp)
    cases last with
    | ok => exact absurd rfl hlast
    | failed | unreachable | busy => exact ih fun other hmem => hnone other (mem_append_left _ hmem)

structure Counted (slot : TbRequestSlot α) (notes : List RequestNote) : Prop where
  taken : notes.head? = some (.taken slot.callback slot.maxAttempts slot.resendOnTimeout)
  attempts : attemptsOf notes = slot.attempts
  limit : slot.attempts ≤ slot.maxAttempts
  again : slot.resendOnTimeout = false → EverySend (outstanding · = false) notes
  unanswered : EverySend (.arrived ∉ ·) notes
  first : slot.nextChunk = 0 → .arrived ∉ notes

structure Tracked (slot : TbRequestSlot α) (notes : List RequestNote) : Prop
    extends Counted slot notes where
  waiting : slot.resendOnTimeout = false → slot.queued = true → outstanding notes = false

structure Spent (notes : List RequestNote) : Prop where
  limit : ∀ callback maxAttempts resendOnTimeout,
    notes.head? = some (.taken callback maxAttempts resendOnTimeout) →
    attemptsOf notes ≤ maxAttempts
  again : ∀ callback maxAttempts, notes.head? = some (.taken callback maxAttempts false) →
    EverySend (outstanding · = false) notes
  unanswered : EverySend (.arrived ∉ ·) notes

def OkLast (results : List TbSendResult) : Prop :=
  ∀ before last after, results = before ++ last :: after → ∀ other ∈ before, other ≠ .ok

theorem okLast_of_none (h : ∀ other ∈ results, other ≠ .ok) : OkLast results := by
  rintro before last after rfl other hother
  exact h other (mem_append_left _ hother)

theorem okLast_of_accepted (h : TbRequestLayer.Accepted slot results) : OkLast results := by
  obtain ⟨init, final, rfl, hinit, -⟩ := h
  intro before last after heq other hother
  refine hinit other ?_
  -- what comes before one of the sends comes before the last
  have hle : before <+: init ++ [final] := ⟨last :: after, heq.symm⟩
  rcases prefix_concat_iff.mp hle with hall | hless
  · rw [hall] at heq
    have hlength := congrArg List.length heq
    simp at hlength
  · exact hless.subset hother

variable {slot' : TbRequestSlot α} {pre : List RequestNote}

theorem Reason.nextChunk_eq_zero (h : Reason (fun slot => slot.nextChunk = 0) slot pre) :
    slot.nextChunk = 0 := by
  cases h with
  | failed hchunk => exact hchunk
  | queued _ hmeets => exact hmeets
  | resend _ hchunk => exact hchunk

theorem Tracked.outstanding_eq_false (h : Tracked slot notes)
    (hreason : Reason (fun slot => slot.nextChunk = 0) slot pre)
    (hresend : slot.resendOnTimeout = false) : outstanding (notes ++ pre) = false := by
  cases hreason with
  | failed => exact outstanding_snoc _ _
  | queued hqueued =>
    rw [append_nil]
    exact h.waiting hresend hqueued
  | resend htrue =>
    rw [hresend] at htrue
    exact absurd htrue (by decide)

theorem Reason.sent_notMem {P : TbRequestSlot α → Prop} (h : Reason P slot pre)
    (result : TbSendResult) : .sent result ∉ pre := by
  cases h <;> simp

theorem Reason.arrived_notMem {P : TbRequestSlot α → Prop} (h : Reason P slot pre) :
    .arrived ∉ pre := by
  cases h <;> simp

theorem Counted.append (h : Counted slot notes) (hmore : ∀ result, .sent result ∉ more)
    (harrived : .arrived ∉ more) : Counted slot (notes ++ more) := by
  constructor
  · rw [List.head?_append, h.taken]
    rfl
  · rw [attemptsOf_append, attemptsOf_eq_zero hmore, h.attempts]
    rfl
  · exact h.limit
  · exact fun hresend => (h.again hresend).append hmore
  · exact h.unanswered.append hmore
  · intro hchunk
    simp only [mem_append, not_or]
    exact ⟨h.first hchunk, harrived⟩

theorem Counted.sends (h : Counted slot notes) (hchunk : slot.nextChunk = 0)
    (hout : slot.resendOnTimeout = false → outstanding notes = false)
    (hsent : slot.Sent slot' results) (hok : OkLast results) :
    Counted slot' (notes ++ results.map .sent) := by
  constructor
  · rw [hsent.callback, hsent.maxAttempts, hsent.resendOnTimeout, List.head?_append, h.taken]
    rfl
  · rw [attemptsOf_append, attemptsOf_sent, h.attempts, hsent.attempts]
  · rw [hsent.maxAttempts]
    exact hsent.limit h.limit
  · intro hresend
    rw [hsent.resendOnTimeout] at hresend
    refine EverySend.sends (h.again hresend) ?_
    intro before last after heq
    exact outstanding_sends (hout hresend) (hok before last after heq)
  · refine EverySend.sends h.unanswered ?_
    intro before last after _
    simpa using h.first hchunk
  · intro _
    simpa using h.first hchunk

theorem Tracked.sends (h : Tracked slot notes)
    (hreason : Reason (fun slot => slot.nextChunk = 0) slot pre) (hsent : slot.Sent slot' results)
    (hok : OkLast results) : Counted slot' (notes ++ (pre ++ results.map .sent)) := by
  rw [← append_assoc]
  exact (h.toCounted.append hreason.sent_notMem hreason.arrived_notMem).sends
    hreason.nextChunk_eq_zero (h.outstanding_eq_false hreason) hsent hok

theorem ne_ok_of_queued (h : TbRequestLayer.Accepted slot results) (hqueued : slot.queued = true) :
    ∀ other ∈ results, other ≠ .ok := by
  obtain ⟨before, last, rfl, hbefore, hlast⟩ := h
  intro other hother
  rcases mem_append.mp hother with hinit | hfinal
  · exact hbefore other hinit
  · rw [mem_singleton.mp hfinal]
    rcases hlast with ⟨_, hfalse⟩ | ⟨rfl, _⟩
    · rw [hqueued] at hfalse
      exact absurd hfalse (by decide)
    · decide

theorem Counted.spent (h : Counted slot notes) (hmore : ∀ result, .sent result ∉ more) :
    Spent (notes ++ more) := by
  have hhead : ∀ callback maxAttempts resendOnTimeout,
      (notes ++ more).head? = some (.taken callback maxAttempts resendOnTimeout) →
      slot.maxAttempts = maxAttempts ∧ slot.resendOnTimeout = resendOnTimeout := by
    intro callback maxAttempts resendOnTimeout hhead
    rw [List.head?_append, h.taken] at hhead
    injection hhead with htaken
    injection htaken with _ hmax hresend
    exact ⟨hmax, hresend⟩
  constructor
  · intro callback maxAttempts resendOnTimeout heq
    rw [attemptsOf_append, attemptsOf_eq_zero hmore, h.attempts,
      ← (hhead callback maxAttempts resendOnTimeout heq).1]
    exact h.limit
  · intro callback maxAttempts heq
    exact (h.again (hhead callback maxAttempts false heq).2).append hmore
  · exact h.unanswered.append hmore

theorem sent_notMem_lastNotes (slot : TbRequestSlot α) (response : TbResponse)
    (result : TbSendResult) : .sent result ∉ lastNotes slot response := by
  unfold lastNotes
  split <;> simp

theorem outstanding_arrived (notes : List RequestNote) (slot : TbRequestSlot α)
    (response : TbResponse) :
    outstanding (notes ++ .arrived :: lastNotes slot response) = outstanding notes := by
  unfold lastNotes
  split
  · exact outstanding_snoc _ _
  · rw [append_cons, outstanding_snoc]
    exact outstanding_snoc _ _

theorem counted_taken (hattempts : slot.attempts = 0) :
    Counted slot [.taken slot.callback slot.maxAttempts slot.resendOnTimeout] where
  taken := rfl
  attempts := hattempts.symm
  limit := by omega
  again := fun _ => (everySend_nil _).append (by simp)
  unanswered := (everySend_nil _).append (by simp)
  first := by simp

/-- **What happens under a sequence** keeps the sends in order, when what is sent from the queue has
had no chunk. -/
theorem sent_rules : Rules (fun slot : TbRequestSlot α => slot.nextChunk = 0) Tracked Spent where
  empty := by
    constructor
    · intro callback maxAttempts resendOnTimeout hhead
      exact absurd hhead (by simp)
    · intro callback maxAttempts hhead
      exact absurd hhead (by simp)
    · exact everySend_nil _
  changed := by
    intro slot slot' notes more hchanged htracked
    cases hchanged with
    | @sent pre results hreason hsent haccepted =>
      refine ⟨htracked.sends hreason hsent (okLast_of_accepted haccepted), ?_⟩
      intro hresend hqueued
      rw [hsent.resendOnTimeout] at hresend
      rw [← append_assoc]
      exact outstanding_sends (htracked.outstanding_eq_false hreason hresend)
        (ne_ok_of_queued haccepted hqueued)
    | failed _ hsame =>
      rw [hsame]
      refine ⟨htracked.toCounted.append (by simp) (by simp), ?_⟩
      intro _ _
      exact outstanding_snoc _ _
    | @chunk response deadline _ _ _ hslot =>
      subst hslot
      have hmore : ∀ result, .sent result ∉ .arrived :: lastNotes slot response := by
        intro result hmem
        rcases mem_cons.mp hmem with heq | hlast
        · exact absurd heq (by simp)
        · exact sent_notMem_lastNotes slot response result hlast
      refine ⟨⟨?_, ?_, htracked.limit, ?_, htracked.unanswered.append hmore, ?_⟩, ?_⟩
      · rw [List.head?_append, htracked.taken]
        rfl
      · rw [attemptsOf_append, attemptsOf_eq_zero hmore, htracked.attempts]
        rfl
      · exact fun hresend => (htracked.again hresend).append hmore
      · intro hzero
        exact absurd hzero (Nat.succ_ne_zero _)
      · intro hresend hqueued
        rw [outstanding_arrived]
        exact htracked.waiting hresend hqueued
  ended := by
    intro slot notes more hended htracked
    cases hended with
    | sent hreason hsent hnone =>
      rw [← append_assoc]
      exact (htracked.sends hreason hsent (okLast_of_none hnone)).spent
        (sent_notMem_lastNotes _ _)
    | told => exact htracked.spent (sent_notMem_lastNotes _ _)
    | @chunk response =>
      refine htracked.spent ?_
      intro result hmem
      rcases mem_cons.mp hmem with heq | hlast
      · exact absurd heq (by simp)
      · exact sent_notMem_lastNotes slot response result hlast
  returned := by
    intro sequence slot notes hbegan hactive
    cases hbegan with
    | @returned first results _ _ hattempts hchunk hsent haccepted =>
      have hcounted : Counted slot ([.taken first.callback first.maxAttempts
          first.resendOnTimeout] ++ results.map .sent) :=
        (counted_taken hattempts).sends hchunk (fun _ => rfl) hsent (okLast_of_accepted haccepted)
      have hmore : Counted slot ([.taken first.callback first.maxAttempts first.resendOnTimeout] ++
          results.map .sent ++ [.returned]) := hcounted.append (by simp) (by simp)
      refine ⟨by simpa using hmore, ?_⟩
      intro hresend hqueued
      have hout : outstanding ([.taken first.callback first.maxAttempts first.resendOnTimeout] ++
          results.map .sent) = false :=
        outstanding_sends rfl (ne_ok_of_queued haccepted hqueued)
      have hlast := outstanding_snoc ([.taken first.callback first.maxAttempts
        first.resendOnTimeout] ++ results.map .sent) .returned
      rw [hout] at hlast
      simpa using hlast
    | dropped hfree =>
      rw [hfree] at hactive
      exact absurd hactive (by decide)
  dropped := by
    intro sequence slot notes hbegan hfree
    cases hbegan with
    | returned hactive =>
      rw [hfree] at hactive
      exact absurd hactive (by decide)
    | @dropped first after results _ hattempts hchunk hsent hnone =>
      have hcounted : Counted after ([.taken first.callback first.maxAttempts
          first.resendOnTimeout] ++ results.map .sent) :=
        (counted_taken hattempts).sends hchunk (fun _ => rfl) hsent (okLast_of_none hnone)
      have hspent : Spent ([.taken first.callback first.maxAttempts first.resendOnTimeout] ++
          results.map .sent ++ []) := hcounted.spent (by simp)
      simpa using hspent

end Attempts

/-- The timer, the attempts and the chunks. -/
structure Orderly (ports : TbRequestPorts) (s : TbRequestLayer α) : Prop where
  /-- Between two operations the timer is armed exactly when a slot is in use. -/
  timer : s.callable → (s.timer.isSome ↔ ∃ i, (s.slots i).active)
  /-- It is armed for the least time that is left to a slot in use, and for one at least. -/
  delay : s.callable → ∀ delay, s.timer = some delay →
    ∃ i, (s.slots i).active ∧
      delay = max 1 (remaining (ports.now (s.readings - 1)) (s.slots i)) ∧
      ∀ j, (s.slots j).active →
        remaining (ports.now (s.readings - 1)) (s.slots i) ≤
          remaining (ports.now (s.readings - 1)) (s.slots j)
  /-- The sends that were not put off are within the limit. -/
  attempts : ∀ q callback maxAttempts resendOnTimeout,
    (s.journal q).head? = some (.taken callback maxAttempts resendOnTimeout) →
    attemptsOf (s.journal q) ≤ maxAttempts
  /-- What is not to be sent again is sent only when no send of it is outstanding. -/
  again : ∀ q callback maxAttempts,
    (s.journal q).head? = some (.taken callback maxAttempts false) →
    EverySend (outstanding · = false) (s.journal q)
  /-- What has had a chunk is not sent. -/
  unanswered : ∀ q, EverySend (.arrived ∉ ·) (s.journal q)

theorem mem_deadlines {slots : Fin 4 → TbRequestSlot α} {deadline : ℕ} :
    deadline ∈ deadlines slots ↔ ∃ i, (slots i).active ∧ (slots i).deadline = deadline := by
  simp [deadlines]

theorem Rearmed.timer_isSome_iff (h : Rearmed ports s) :
    s.timer.isSome ↔ ∃ i, (s.slots i).active := by
  rw [h, Option.isSome_iff_ne_none, Ne, (Deadline.delay_spec _ _).1, eq_nil_iff_forall_not_mem]
  simp [mem_deadlines]

theorem Rearmed.delay (h : Rearmed ports s) {delay : ℕ} (hdelay : s.timer = some delay) :
    ∃ i, (s.slots i).active ∧
      delay = max 1 (remaining (ports.now (s.readings - 1)) (s.slots i)) ∧
      ∀ j, (s.slots j).active →
        remaining (ports.now (s.readings - 1)) (s.slots i) ≤
          remaining (ports.now (s.readings - 1)) (s.slots j) := by
  obtain ⟨first, hfirst, hlength, hleast⟩ := (Deadline.delay_spec _ _).2 delay (h.symm.trans hdelay)
  obtain ⟨i, hactive, rfl⟩ := mem_deadlines.mp hfirst
  exact ⟨i, hactive, hlength, fun j hj => hleast _ (mem_deadlines.mpr ⟨j, hj, rfl⟩)⟩

theorem Timed.orderly (h : Timed ports s) (hledger : Ledger Tracked Spent s) : Orderly ports s := by
  have hjournal : ∀ q, Spent (s.journal q) := by
    intro q
    by_cases hused : ∃ i, (s.slots i).active ∧ (s.slots i).sequence = q
    · obtain ⟨i, hactive, rfl⟩ := hused
      have hspent : Spent (s.journal (s.slots i).sequence ++ []) :=
        (hledger.opened i hactive).spent (by simp)
      simpa using hspent
    · refine hledger.closed q ?_
      intro i hactive heq
      exact hused ⟨i, hactive, heq⟩
  constructor
  · exact fun hcallable => (h.armed hcallable).timer_isSome_iff
  · exact fun hcallable delay hdelay => (h.armed hcallable).delay hdelay
  · exact fun q => (hjournal q).limit
  · exact fun q => (hjournal q).again
  · exact fun q => (hjournal q).unanswered

theorem Unbegun.queueMeets {event : RequestEvent α} (h : Unbegun s event) :
    QueueMeets (fun slot => slot.nextChunk = 0) s event := by
  cases event with
  | submit => trivial
  | _ => exact h

theorem unbegun_resume (h : ∀ i, (s.slots i).nextChunk = 0) : Unbegun s .resume := by
  show QueueMeets (fun slot => slot.nextChunk = 0) s .resume
  exact queueMeets_of_forall h .resume

/-- **The timer and the attempts.** In every run whose events send nothing from the queue that has
had a chunk, and submit nothing while everything is cancelled: after every operation the timer is
armed exactly when a slot is in use, for the least time that is left; no request is sent more often
than it may be, or again while a send of it is outstanding unless it may be, or after a chunk of its
answer. -/
theorem orderly_of_run (ports : TbRequestPorts) (events : List (RequestEvent α))
    (s : TbRequestLayer α)
    (hrun : Run (Within Unbegun fun s event s' => s.step ports event = s') {} events s) :
    Orderly ports s := by
  have hboth : Timed ports s ∧ Ledger Tracked Spent s := by
    refine hrun.invariant (fun s => Timed ports s ∧ Ledger Tracked Spent s) ?_
      ⟨timed_start, sent_rules.start⟩
    rintro s event s' ⟨htimed, hledger⟩ ⟨hunbegun, rfl⟩
    exact ⟨timed_step htimed hunbegun, hledger.move sent_rules
      (move_step hledger.idle hledger.counter event hunbegun.queueMeets)⟩
  exact hboth.1.orderly hboth.2

/-- Ports that put the second send off; the clock is at a thousand from the third reading on. -/
def latePorts : TbRequestPorts where
  send := fun n => if n = 1 then .busy else .ok
  now := fun n => if n < 2 then 0 else 1000

def putOff : List (RequestEvent Unit) :=
  [.submit (some ()) 1000 2 true (some 7), .tick, .resume, .resume, .resume, .resume, .resume]

theorem orderly_of_run_put_off :
    let s := putOff.foldl (TbRequestLayer.step latePorts) {}
    s.callable ∧ s.timer = some 100 ∧
      s.journal 1 = [.taken (some 7) 2 true, .sent .ok, .returned, .sent .busy] ∧
      Orderly latePorts s := by
  refine ⟨by decide, by decide, by decide, orderly_of_run latePorts putOff _ ?_⟩
  have hsubmitted : Unbegun {} (.submit (some ()) 1000 2 true (some 7)) := by
    intro index
    exact List.not_mem_nil
  exact (((((((Run.nil _).snoc ⟨hsubmitted, rfl⟩).snoc ⟨trivial, rfl⟩).snoc
    ⟨unbegun_resume (by decide), rfl⟩).snoc
    ⟨unbegun_resume (by decide), rfl⟩).snoc
    ⟨unbegun_resume (by decide), rfl⟩).snoc
    ⟨unbegun_resume (by decide), rfl⟩).snoc
    ⟨unbegun_resume (by decide), rfl⟩

def answeredLate : List (RequestEvent Unit) :=
  putOff ++ [.chunk 1 { outcome := .response } 2, .ret, .outboxReady]

/-- **A request is sent after its first chunk**: the answer to the first send comes while the second
waits in the queue, and the queue is served all the same. No callback submits anything. -/
theorem queued_sent_after_chunk :
    let s := answeredLate.foldl (TbRequestLayer.step latePorts) {}
    s.journal 1 = [.taken (some 7) 2 true, .sent .ok, .returned, .sent .busy, .arrived,
        .called 7 { outcome := .response, final := false }, .sent .ok] ∧
      ¬ Orderly latePorts s := by
  have hjournal : (answeredLate.foldl (TbRequestLayer.step latePorts) {}).journal 1 =
      [.taken (some 7) 2 true, .sent .ok, .returned, .sent .busy, .arrived,
        .called 7 { outcome := .response, final := false }] ++ [.sent .ok] := by decide
  refine ⟨hjournal, ?_⟩
  intro h
  have hlast := h.unanswered 1 _ .ok (by rw [hjournal])
  exact absurd hlast (by decide)

end Watch
