import TeleBezel.Lib.Transition
import TeleBezel.Watch.RequestLayer

/-!
# What an event does to the requests

Every event changes at most one slot of the request layer, and what has happened under its sequence
goes on: the request is sent, gets a chunk, or ends; or a slot is taken for a new sequence. This is
said once here, for every answer of the ports, and an invariant that speaks of a slot and of its
journal follows from three rules.
-/

namespace Watch

open Word Transition TbRequestLayer Function

variable {α : Type} {ports : TbRequestPorts} {s : TbRequestLayer α} {i : Fin 4}
  {slot : TbRequestSlot α} {P : TbRequestSlot α → Prop}

def lastNotes (slot : TbRequestSlot α) (response : TbResponse) : List RequestNote :=
  match slot.callback with
  | none => []
  | some callback => [.called callback response]

/-- Why a request is sent again, with what is noted before: a send has failed, it was put off, or
its time is over. What is sent from the queue meets a condition. -/
inductive Reason (P : TbRequestSlot α → Prop) (slot : TbRequestSlot α) : List RequestNote → Prop
  | failed (hchunk : slot.nextChunk = 0) : Reason P slot [.sendFailed]
  | queued (hqueued : slot.queued = true) (hmeets : P slot) : Reason P slot []
  | resend (hresend : slot.resendOnTimeout = true) (hchunk : slot.nextChunk = 0) : Reason P slot []

inductive Changed (P : TbRequestSlot α → Prop) (slot slot' : TbRequestSlot α) :
    List RequestNote → Prop
  | sent {pre : List RequestNote} {results : List TbSendResult} (hreason : Reason P slot pre)
      (hsent : slot.Sent slot' results) (haccepted : TbRequestLayer.Accepted slot' results) :
      Changed P slot slot' (pre ++ results.map .sent)
  | failed (hchunk : 0 < slot.nextChunk) (hsame : slot' = slot) : Changed P slot slot' [.sendFailed]
  | chunk {response : TbResponse} {deadline : ℕ} (houtcome : response.outcome = .response)
      (hindex : response.index = slot.nextChunk) (hfinal : response.final = false)
      (hslot : slot' = { slot with nextChunk := slot.nextChunk + 1, deadline }) :
      Changed P slot slot' (.arrived :: lastNotes slot response)

inductive Ended (P : TbRequestSlot α → Prop) (slot : TbRequestSlot α) : List RequestNote → Prop
  | sent {pre : List RequestNote} {slot' : TbRequestSlot α} {results : List TbSendResult}
      {outcome : TbRequestOutcome} (hreason : Reason P slot pre) (hsent : slot.Sent slot' results)
      (hnone : ∀ other ∈ results, other ≠ .ok) (houtcome : outcome ≠ .response) :
      Ended P slot (pre ++ results.map .sent ++
        lastNotes slot' { outcome, result := 0, final := true })
  | told {outcome : TbRequestOutcome} {result : ℤ} (houtcome : outcome ≠ .response) :
      Ended P slot (lastNotes slot { outcome, result, final := true })
  | chunk {response : TbResponse} (hindex : response.index = slot.nextChunk)
      (hfinal : response.final = true) : Ended P slot (.arrived :: lastNotes slot response)

/-- How a request begins: it is sent or put off and its number returned, or its slot is given up at
once. -/
inductive Began (sequence : ℕ) (slot' : TbRequestSlot α) : List RequestNote → Prop
  | returned {slot : TbRequestSlot α} {results : List TbSendResult} (hactive : slot'.active)
      (hsequence : slot'.sequence = sequence) (hattempts : slot.attempts = 0)
      (hchunk : slot.nextChunk = 0) (hsent : slot.Sent slot' results)
      (haccepted : TbRequestLayer.Accepted slot' results) :
      Began sequence slot' (.taken slot.callback slot.maxAttempts slot.resendOnTimeout ::
        (results.map .sent ++ [.returned]))
  | dropped {slot after : TbRequestSlot α} {results : List TbSendResult}
      (hfree : slot'.active = false) (hattempts : slot.attempts = 0)
      (hchunk : slot.nextChunk = 0) (hsent : slot.Sent after results) (hnone : ∀ other ∈ results, other ≠ .ok) :
      Began sequence slot' (.taken slot.callback slot.maxAttempts slot.resendOnTimeout ::
        results.map .sent)

/-- What one event does to the slots and the journals: nothing, or it changes a slot in use, gives it
up, or takes a slot for a new sequence. -/
inductive Move (P : TbRequestSlot α → Prop) (s s' : TbRequestLayer α) : Prop
  | same (hslots : s'.slots = s.slots) (hjournal : s'.journal = s.journal)
      (hidle : s'.submitting = s.submitting) (hnext : s'.nextSequence = s.nextSequence)
  | change (i : Fin 4) (slot : TbRequestSlot α) (more : List RequestNote)
      (hactive : (s.slots i).active) (hslots : s'.slots = update s.slots i slot)
      (hjournal : s'.journal = update s.journal (s.slots i).sequence
        (s.journal (s.slots i).sequence ++ more))
      (hidle : s'.submitting = s.submitting) (hnext : s'.nextSequence = s.nextSequence)
      (hactive' : slot.active) (hsequence : slot.sequence = (s.slots i).sequence)
      (hchanged : Changed P (s.slots i) slot more)
  | release (i : Fin 4) (slot : TbRequestSlot α) (more : List RequestNote)
      (hactive : (s.slots i).active) (hslots : s'.slots = update s.slots i slot)
      (hjournal : s'.journal = update s.journal (s.slots i).sequence
        (s.journal (s.slots i).sequence ++ more))
      (hidle : s'.submitting = s.submitting) (hnext : s'.nextSequence = s.nextSequence)
      (hfree : slot.active = false) (hended : Ended P (s.slots i) more)
  | take (i : Fin 4) (slot : TbRequestSlot α) (anew : List RequestNote)
      (hfree : (s.slots i).active = false) (hslots : s'.slots = update s.slots i slot)
      (hjournal : s'.journal = update s.journal s'.nextSequence anew)
      (hidle : s'.submitting = false)
      (hnumber : 0 < s'.nextSequence ∧ s'.nextSequence ≤ int32Max ∧
        s'.nextSequence ≠ s.nextSequence)
      (hunused : ∀ j, (s.slots j).active → (s.slots j).sequence ≠ s'.nextSequence)
      (hbegan : Began s'.nextSequence slot anew)

/-- The slots and the journals agree: by one property of a slot in use and its journal, and by
another of every other journal. -/
structure Ledger (Open : TbRequestSlot α → List RequestNote → Prop)
    (Closed : List RequestNote → Prop) (s : TbRequestLayer α) : Prop where
  idle : s.submitting = false
  counter : s.nextSequence ≤ int32Max
  numbers : ∀ i, (s.slots i).active → 0 < (s.slots i).sequence ∧ (s.slots i).sequence ≤ int32Max
  distinct : ∀ i j, (s.slots i).active → (s.slots j).active →
    (s.slots i).sequence = (s.slots j).sequence → i = j
  opened : ∀ i, (s.slots i).active → Open (s.slots i) (s.journal (s.slots i).sequence)
  closed : ∀ q, (∀ i, (s.slots i).active → (s.slots i).sequence ≠ q) → Closed (s.journal q)

structure Rules (P : TbRequestSlot α → Prop) (Open : TbRequestSlot α → List RequestNote → Prop)
    (Closed : List RequestNote → Prop) : Prop where
  empty : Closed []
  changed : ∀ slot slot' notes more, Changed P slot slot' more → Open slot notes →
    Open slot' (notes ++ more)
  ended : ∀ slot notes more, Ended P slot more → Open slot notes → Closed (notes ++ more)
  returned : ∀ sequence (slot : TbRequestSlot α) notes, Began sequence slot notes →
    slot.active → Open slot notes
  dropped : ∀ sequence (slot : TbRequestSlot α) notes, Began sequence slot notes →
    slot.active = false → Closed notes

theorem Began.sequence_eq {sequence : ℕ} {notes : List RequestNote}
    (h : Began sequence slot notes) (hactive : slot.active) : slot.sequence = sequence := by
  cases h with
  | returned _ hsequence => exact hsequence
  | dropped hfree =>
    rw [hfree] at hactive
    exact absurd hactive (by decide)

section Slots

variable {Open : TbRequestSlot α → List RequestNote → Prop} {Closed : List RequestNote → Prop}
  {s' : TbRequestLayer α} {slot' : TbRequestSlot α} {more : List RequestNote}

/-- A slot is written with the number `q` and its journal: no other slot in use has that number, and
what was in the slot before had it. -/
theorem Ledger.put (h : Ledger Open Closed s) {q : ℕ} {notes : List RequestNote}
    (hbefore : (s.slots i).active → (s.slots i).sequence = q)
    (hothers : ∀ j, j ≠ i → (s.slots j).active → (s.slots j).sequence ≠ q)
    (hslots : s'.slots = update s.slots i slot')
    (hjournal : s'.journal = update s.journal q notes)
    (hidle : s'.submitting = false) (hnext : s'.nextSequence ≤ int32Max)
    (hopened : slot'.active → slot'.sequence = q ∧ 0 < q ∧ q ≤ int32Max ∧ Open slot' notes)
    (hclosed : slot'.active = false → Closed notes) : Ledger Open Closed s' := by
  have hold : ∀ j, (s'.slots j).active → j = i ∧ s'.slots j = slot' ∨
      j ≠ i ∧ (s.slots j).active ∧ s'.slots j = s.slots j := by
    intro j hj
    rw [hslots] at hj ⊢
    by_cases heq : j = i
    · subst heq
      exact Or.inl ⟨rfl, update_self _ _ _⟩
    · rw [update_of_ne heq] at hj ⊢
      exact Or.inr ⟨heq, hj, rfl⟩
  have hnew : ∀ j, (s'.slots j).active → s'.slots j = slot' →
      slot'.sequence = q ∧ 0 < q ∧ q ≤ int32Max ∧ Open slot' notes := by
    intro j hj heq
    rw [heq] at hj
    exact hopened hj
  constructor
  · exact hidle
  · exact hnext
  · intro j hj
    rcases hold j hj with ⟨-, heq⟩ | ⟨-, hj', heq⟩
    · obtain ⟨hq, hpos, hmax, -⟩ := hnew j hj heq
      rw [heq, hq]
      exact ⟨hpos, hmax⟩
    · rw [heq]
      exact h.numbers j hj'
  · intro j k hj hk hsame
    rcases hold j hj with ⟨hji, hjeq⟩ | ⟨hji, hj', hjeq⟩
    · rcases hold k hk with ⟨hki, -⟩ | ⟨hki, hk', hkeq⟩
      · rw [hji, hki]
      · rw [hjeq, hkeq, (hnew j hj hjeq).1] at hsame
        exact absurd hsame.symm (hothers k hki hk')
    · rcases hold k hk with ⟨hki, hkeq⟩ | ⟨-, hk', hkeq⟩
      · rw [hjeq, hkeq, (hnew k hk hkeq).1] at hsame
        exact absurd hsame (hothers j hji hj')
      · rw [hjeq, hkeq] at hsame
        exact h.distinct j k hj' hk' hsame
  · intro j hj
    rcases hold j hj with ⟨-, heq⟩ | ⟨hji, hj', heq⟩
    · obtain ⟨hq, -, -, hopen⟩ := hnew j hj heq
      rw [heq, hq, hjournal, update_self]
      exact hopen
    · rw [heq, hjournal, update_of_ne (hothers j hji hj')]
      exact h.opened j hj'
  · intro q' hq'
    rw [hjournal]
    by_cases heq : q' = q
    · subst heq
      rw [update_self]
      refine hclosed ?_
      by_contra hactive
      have hi : (s'.slots i).active := by
        rw [hslots, update_self]
        simpa using hactive
      refine hq' i hi ?_
      rw [hslots, update_self]
      exact (hopened (by simpa using hactive)).1
    · rw [update_of_ne heq]
      refine h.closed q' fun j hj hsame => ?_
      have hji : j ≠ i := by
        rintro rfl
        exact heq (hsame.symm.trans (hbefore hj))
      refine hq' j ?_ ?_
      · rw [hslots, update_of_ne hji]
        exact hj
      · rw [hslots, update_of_ne hji]
        exact hsame

theorem Ledger.move (h : Ledger Open Closed s) (hrules : Rules P Open Closed)
    (hmove : Move P s s') : Ledger Open Closed s' := by
  cases hmove with
  | same hslots hjournal hidle hnext =>
    constructor
    · rw [hidle]
      exact h.idle
    · rw [hnext]
      exact h.counter
    · rw [hslots]
      exact h.numbers
    · rw [hslots]
      exact h.distinct
    · rw [hslots, hjournal]
      exact h.opened
    · rw [hslots, hjournal]
      exact h.closed
  | change i slot more hactive hslots hjournal hidle hnext hactive' hsequence hchanged =>
    refine h.put (fun _ => rfl) (fun j hne hj heq => hne (h.distinct j i hj hactive heq)) hslots
      hjournal (hidle.trans h.idle) (hnext.trans_le h.counter) (fun _ => ?_) fun hfree => ?_
    · exact ⟨hsequence, (h.numbers i hactive).1, (h.numbers i hactive).2,
        hrules.changed _ _ _ _ hchanged (h.opened i hactive)⟩
    · exact absurd (hfree.symm.trans hactive') Bool.false_ne_true
  | release i slot more hactive hslots hjournal hidle hnext hfree hended =>
    refine h.put (fun _ => rfl) (fun j hne hj heq => hne (h.distinct j i hj hactive heq)) hslots
      hjournal (hidle.trans h.idle) (hnext.trans_le h.counter) (fun hused => ?_) fun _ => ?_
    · exact absurd (hfree.symm.trans hused) Bool.false_ne_true
    · exact hrules.ended _ _ _ hended (h.opened i hactive)
  | take i slot anew hfree hslots hjournal hidle hnumber hunused hbegan =>
    have hbefore : (s.slots i).active → (s.slots i).sequence = s'.nextSequence :=
      fun hused => absurd (hfree.symm.trans hused) Bool.false_ne_true
    refine h.put hbefore (fun j _ => hunused j) hslots hjournal hidle hnumber.2.1 ?_
      (hrules.dropped _ _ _ hbegan)
    intro hactive
    exact ⟨hbegan.sequence_eq hactive, hnumber.1, hnumber.2.1, hrules.returned _ _ _ hbegan hactive⟩

theorem Rules.start (hrules : Rules P Open Closed) :
    Ledger Open Closed ({} : TbRequestLayer α) where
  idle := rfl
  counter := Nat.zero_le _
  numbers := by simp
  distinct := by simp
  opened := by simp
  closed := fun _ _ => hrules.empty

def Unused (s : TbRequestLayer α) (q : ℕ) : Prop :=
  ∀ i, (s.slots i).active → (s.slots i).sequence ≠ q

theorem Unused.put {q : ℕ} (h : Unused s q) (hslots : s'.slots = update s.slots i slot')
    (hother : slot'.active → slot'.sequence ≠ q) : Unused s' q := by
  intro j hj
  rw [hslots] at hj ⊢
  by_cases heq : j = i
  · subst heq
    rw [update_self] at hj ⊢
    exact hother hj
  · rw [update_of_ne heq] at hj ⊢
    exact h j hj

theorem Unused.move {q : ℕ} (h : Unused s q) (hmove : Move P s s')
    (hnew : s'.nextSequence = s.nextSequence ∨ s'.nextSequence ≠ q) :
    Unused s' q ∧ s'.journal q = s.journal q := by
  cases hmove with
  | same hslots hjournal _ _ =>
    unfold Unused
    rw [hslots, hjournal]
    exact ⟨h, rfl⟩
  | change i slot more hactive hslots hjournal _ _ _ hsequence _ =>
    refine ⟨h.put hslots fun _ => hsequence.trans_ne (h i hactive), ?_⟩
    rw [hjournal, update_of_ne (h i hactive).symm]
  | release i slot more hactive hslots hjournal _ _ hfree _ =>
    refine ⟨h.put hslots fun hused => ?_, ?_⟩
    · exact absurd (hfree.symm.trans hused) Bool.false_ne_true
    · rw [hjournal, update_of_ne (h i hactive).symm]
  | take i slot anew hfree hslots hjournal _ hnumber hunused hbegan =>
    have hne : s'.nextSequence ≠ q := by
      rcases hnew with heq | hne
      · exact absurd heq hnumber.2.2
      · exact hne
    refine ⟨h.put hslots fun hused => (hbegan.sequence_eq hused).trans_ne hne, ?_⟩
    rw [hjournal, update_of_ne hne.symm]

end Slots

section Operations

variable {result : TbRequestLayer α}

/-- A request that the event sends from the queue meets a condition: the first that is put off, or
the one at which the loop of `tb_requests_tick` goes on. -/
def QueueMeets (P : TbRequestSlot α → Prop) (s : TbRequestLayer α) : RequestEvent α → Prop
  | .outboxReady => ∀ i, ((List.finRange 4).find? fun i =>
      (s.slots i).active && (s.slots i).queued) = some i → P (s.slots i)
  | .resume => ∀ index now rest, s.stack = .tick index now :: rest → ∀ hless : index < 4,
      (s.slots ⟨index, hless⟩).active → Deadline.passed now (s.slots ⟨index, hless⟩).deadline →
      (s.slots ⟨index, hless⟩).queued → P (s.slots ⟨index, hless⟩)
  | _ => True

theorem queueMeets_of_forall (h : ∀ i, P (s.slots i)) (event : RequestEvent α) :
    QueueMeets P s event := by
  cases event with
  | outboxReady => exact fun i _ => h i
  | resume => exact fun index _ _ _ hless _ _ _ => h ⟨index, hless⟩
  | _ => trivial

theorem journal_call {response : TbResponse} : (s.call slot response).journal =
    update s.journal slot.sequence
      (s.journal slot.sequence ++ lastNotes slot response) := by
  cases hcallback : slot.callback with
  | none => simp [call, lastNotes, hcallback]
  | some callback => simp [call, lastNotes, hcallback, TbRequestLayer.note]

@[simp] theorem nextSequence_call {response : TbResponse} :
    (s.call slot response).nextSequence = s.nextSequence := by
  unfold call
  split <;> rfl

theorem complete_eq (hidle : s.submitting = false) (outcome : TbRequestOutcome) (result : ℤ) :
    s.complete ports i outcome result =
      ((s.put i { s.slots i with active := false }).arm ports).call (s.slots i)
        { outcome, result, final := true } := by
  unfold complete
  rw [if_neg]
  rw [submitting_arm, submitting_put, hidle]
  decide

theorem move_complete (hidle : s.submitting = false) (hactive : (s.slots i).active)
    {outcome : TbRequestOutcome} (houtcome : outcome ≠ .response) {result : ℤ} :
    Move P s (s.complete ports i outcome result) := by
  rw [complete_eq hidle]
  refine .release i { s.slots i with active := false }
    (lastNotes (s.slots i) { outcome, result, final := true }) hactive ?_ ?_ ?_ ?_ rfl ?_
  · simp
  · rw [journal_call]
    simp
  · simp
  · rw [nextSequence_call]
    rfl
  · exact .told houtcome

theorem move_attempted (before : TbRequestLayer α) (slot : TbRequestSlot α)
    (pre : List RequestNote) (hreason : Reason P (s.slots i) pre) (hidle : s.submitting = false)
    (hactive : (s.slots i).active) (hslots : before.slots = update s.slots i slot)
    (hslot : slot = { s.slots i with unreachable := slot.unreachable })
    (hjournal : before.journal = update s.journal (s.slots i).sequence
      (s.journal (s.slots i).sequence ++ pre))
    (hbefore : before.submitting = s.submitting) (hnext : before.nextSequence = s.nextSequence)
    (h : TbRequestLayer.Attempted ports before i result) : Move P s result := by
  obtain ⟨slot', results, sends, hsent, hcase⟩ := h
  have hbeforeSlot : before.slots i = slot := by
    rw [hslots, update_self]
  -- whether the phone was out of reach is not counted
  have hsent' : (s.slots i).Sent slot' results := by
    rw [hbeforeSlot, hslot] at hsent
    exact ⟨⟨hsent.active, hsent.resendOnTimeout, hsent.maxAttempts, hsent.nextChunk, hsent.sequence,
      hsent.callback⟩, hsent.attempts, hsent.limit⟩
  have hsequence : slot.sequence = (s.slots i).sequence := by
    rw [hslot]
  have hafter : (before.afterSends i slot' results sends).journal =
      update s.journal (s.slots i).sequence
        (s.journal (s.slots i).sequence ++ (pre ++ results.map .sent)) := by
    simp [afterSends, TbRequestLayer.note, hbeforeSlot, hsequence, hjournal]
  have hput : (before.afterSends i slot' results sends).slots =
      update s.slots i slot' := by
    simp [afterSends, hslots]
  rcases hcase with ⟨haccepted, rfl⟩ | ⟨hnone, outcome, houtcome, rfl⟩
  · refine .change i slot' (pre ++ results.map .sent) hactive ?_ ?_ ?_ ?_ ?_ hsent'.sequence
      (.sent hreason hsent' haccepted)
    · rw [slots_arm, hput]
    · rw [journal_arm, hafter]
    · exact hbefore
    · exact hnext
    · rw [hsent'.active]
      exact hactive
  · have hquiet : (before.afterSends i slot' results sends).submitting = false :=
      hbefore.trans hidle
    rw [complete_eq hquiet]
    refine .release i { slot' with active := false }
      (pre ++ results.map .sent ++ lastNotes slot' { outcome, result := 0, final := true })
      hactive ?_ ?_ ?_ ?_ rfl (.sent hreason hsent' hnone houtcome)
    · simp [hput]
    · rw [journal_call]
      simp [hafter, hsent'.sequence]
    · rw [submitting_call]
      exact hbefore
    · rw [nextSequence_call]
      exact hnext

section

variable (hreason : Reason P (s.slots i) []) (hidle : s.submitting = false) (hactive : (s.slots
  i).active)
include hreason hidle hactive

theorem move_attempt : Move P s (s.attempt ports i) := by
  refine move_attempted (s.read ports).2 (s.slots i) [] hreason hidle hactive ?_ rfl ?_ rfl rfl
    (TbRequestLayer.attempted_attempt ports s i)
  · simp [TbRequestLayer.read]
  · simp [TbRequestLayer.read]

theorem move_attempt_put (unreachable : Bool) :
    Move P s ((s.put i { s.slots i with unreachable }).attempt ports i) := by
  refine move_attempted ((s.put i { s.slots i with unreachable }).read ports).2
    { s.slots i with unreachable } [] hreason hidle hactive rfl rfl ?_ rfl rfl
    (TbRequestLayer.attempted_attempt ports _ i)
  simp [TbRequestLayer.read]

end

section

variable (hidle : s.submitting = false)
include hidle

theorem move_sendFailed (sequence : ℕ) (unreachable : Bool) :
    Move P s (s.tbRequestsSendFailed ports sequence unreachable) := by
  unfold tbRequestsSendFailed
  split
  · exact .same rfl rfl rfl rfl
  · rename_i i hfind
    obtain ⟨-, hactive, rfl⟩ := find_eq_some hfind
    dsimp only
    split
    · -- the answer has begun: the failure is only noted
      rename_i hchunk
      refine .change i (s.slots i) [.sendFailed] hactive ?_ rfl rfl rfl hactive rfl
        (.failed hchunk rfl)
      simp
    · rename_i hchunk
      have hnone : (s.slots i).nextChunk = 0 := Nat.eq_zero_of_not_pos hchunk
      let noted := (s.note (s.slots i).sequence [.sendFailed]).put i { s.slots i with unreachable }
      exact move_attempted (noted.read ports).2 { s.slots i with unreachable } [.sendFailed]
        (.failed hnone) hidle hactive rfl rfl rfl rfl rfl
        (attempted_attempt ports noted i)

theorem move_outboxReady (hmeets : QueueMeets P s .outboxReady) :
    Move P s (s.tbRequestsOutboxReady ports) := by
  unfold tbRequestsOutboxReady
  split
  · exact .same rfl rfl rfl rfl
  · rename_i i hfind
    have hfound := List.find?_some hfind
    simp only [Bool.and_eq_true] at hfound
    exact move_attempt (.queued hfound.2 (hmeets i hfind)) hidle hfound.1

theorem move_cancel (sequence : ℕ) :
    Move P s (s.tbRequestsCancel ports sequence) := by
  unfold tbRequestsCancel
  split
  · exact .same rfl rfl rfl rfl
  · rename_i i hfind
    exact move_complete hidle (find_eq_some hfind).2.1 (by decide)

theorem move_chunk (sequence : ℕ) (chunk : TbResponse)
    (total : ℕ) : Move P s (s.tbRequestsChunk ports sequence chunk total) := by
  unfold TbRequestLayer.tbRequestsChunk
  split
  · exact .same rfl rfl rfl rfl
  · rename_i i hfind
    obtain ⟨-, hactive, rfl⟩ := TbRequestLayer.find_eq_some hfind
    dsimp only
    split
    · exact move_complete hidle hactive (by decide)
    · rename_i hright
      have hindex : chunk.index = (s.slots i).nextChunk := by
        by_contra hne
        exact hright (Or.inr (Or.inr hne))
      split
      · rename_i hlast
        refine .release i { s.slots i with active := false } (.arrived :: lastNotes (s.slots i)
            { chunk with outcome := .response, final := chunk.index + 1 = total })
          hactive ?_ ?_ ?_ ?_ rfl (.chunk hindex hlast)
        · simp
        · rw [journal_call]
          simp [TbRequestLayer.note]
        · simp
        · rw [nextSequence_call]
          rfl
      · rename_i hmore
        refine .change i { s.slots i with
            nextChunk := (s.slots i).nextChunk + 1
            deadline := uint32 (ports.now s.readings + (s.slots i).timeout : ℕ) }
          (.arrived :: lastNotes (s.slots i)
            { chunk with outcome := .response, final := chunk.index + 1 = total })
          hactive ?_ ?_ ?_ ?_ hactive rfl (.chunk rfl hindex (by simpa using hmore) rfl)
        · simp [TbRequestLayer.read, TbRequestLayer.note]
        · rw [journal_call]
          simp [TbRequestLayer.read, TbRequestLayer.note]
        · simp [TbRequestLayer.read]
        · rw [nextSequence_call]
          rfl

end

theorem Move.of_stack {stack : List RequestFrame} {s' : TbRequestLayer α}
    (h : Move P { s with stack } s') : Move P s s' := by
  cases h with
  | same hslots hjournal hidle hnext => exact .same hslots hjournal hidle hnext
  | change i slot more hactive hslots hjournal hidle hnext hactive' hsequence hchanged =>
    exact .change i slot more hactive hslots hjournal hidle hnext hactive' hsequence hchanged
  | release i slot more hactive hslots hjournal hidle hnext hfree hended =>
    exact .release i slot more hactive hslots hjournal hidle hnext hfree hended
  | take i slot anew hfree hslots hjournal hidle hnumber hunused hbegan =>
    exact .take i slot anew hfree hslots hjournal hidle hnumber hunused hbegan

theorem move_tickSlot (hidle : s.submitting = false) (i : Fin 4) (now : ℕ)
    (hmeets : (s.slots i).active → Deadline.passed now (s.slots i).deadline → (s.slots i).queued →
      P (s.slots i)) : Move P s (s.tickSlot ports i now) := by
  unfold tickSlot
  dsimp only
  split
  · exact .same rfl rfl rfl rfl
  · rename_i hdue
    have hactive : (s.slots i).active := by
      by_contra hnot
      exact hdue (by simp [hnot])
    have hexpired : Deadline.passed now (s.slots i).deadline := by
      by_contra hnot
      exact hdue (by simp [hnot])
    split
    · rename_i hagain
      refine move_attempt_put ?_ hidle hactive false
      cases hqueued : (s.slots i).queued with
      | true => exact .queued hqueued (hmeets hactive hexpired hqueued)
      | false =>
        have hboth : (s.slots i).resendOnTimeout = true ∧ (s.slots i).nextChunk = 0 := by
          simpa [hqueued] using hagain
        exact .resend hboth.1 hboth.2
    · exact move_complete hidle hactive (by decide)

theorem move_cancelSlot (hidle : s.submitting = false) (i : Fin 4) :
    Move P s (s.cancelSlot ports i) := by
  unfold cancelSlot
  split
  · rename_i hactive
    exact move_complete hidle hactive (by decide)
  · exact .same rfl rfl rfl rfl

theorem move_resume (hidle : s.submitting = false) (hmeets : QueueMeets P s .resume) :
    Move P s (s.resume ports) := by
  unfold resume
  split
  · rename_i index now rest hstack
    split
    · rename_i hless
      refine Move.of_stack (move_tickSlot ?_ _ _ ?_)
      · exact hidle
      · exact hmeets index now rest hstack hless
    · exact .same rfl rfl rfl rfl
  · split
    · refine Move.of_stack (move_cancelSlot ?_ _)
      exact hidle
    · exact .same rfl rfl rfl rfl
  · exact .same rfl rfl rfl rfl

theorem complete_submitting (hidle : s.submitting = true) (outcome : TbRequestOutcome)
    (result : ℤ) : s.complete ports i outcome result =
      { (s.put i { s.slots i with active := false }).arm ports with immediate := outcome } := by
  unfold complete
  rw [if_pos]
  rw [submitting_arm, submitting_put, hidle]

/-- The end of `tb_requests_submit`: the number is returned if its slot is still in use. -/
def returning (s : TbRequestLayer α) (i : Fin 4) (sequence : ℕ) : TbRequestLayer α × ℕ :=
  if (s.slots i).active ∧ (s.slots i).sequence = sequence then
    (s.note sequence [.returned], sequence)
  else (s, 0)

theorem move_returning {before : TbRequestLayer α} {sequence : ℕ}
    (hfree : (s.slots i).active = false)
    (hslots : before.slots = update s.slots i slot) (hactive : slot.active)
    (hsequence : slot.sequence = sequence) (hattempts : slot.attempts = 0)
    (hchunk : slot.nextChunk = 0)
    (hjournal : before.journal = update s.journal sequence
      [.taken slot.callback slot.maxAttempts slot.resendOnTimeout])
    (hsubmitting : before.submitting = true) (hnext : before.nextSequence = sequence)
    (hnumber : 0 < sequence ∧ sequence ≤ int32Max ∧ sequence ≠ s.nextSequence)
    (hunused : ∀ j, (s.slots j).active → (s.slots j).sequence ≠ sequence) :
    Move P s (returning { before.attempt ports i with submitting := false } i sequence).1 := by
  obtain ⟨slot', results, sends, hsent, hcase⟩ :=
    attempted_attempt ports before i
  have hslot : before.slots i = slot := by
    rw [hslots, update_self]
  replace hsent : slot.Sent slot' results := hslot ▸ hsent
  have hafter : ((before.read ports).2.afterSends i slot' results sends).journal =
      update s.journal sequence
        (.taken slot.callback slot.maxAttempts slot.resendOnTimeout :: results.map .sent) := by
    show update before.journal (before.slots i).sequence
      (before.journal (before.slots i).sequence ++ results.map .sent) = _
    rw [hslot, hsequence, hjournal]
    simp
  have hput : ((before.read ports).2.afterSends i slot' results sends).slots =
      update s.slots i slot' := by
    show update before.slots i slot' = _
    rw [hslots, update_idem]
  rcases hcase with ⟨haccepted, heq⟩ | ⟨hnone, outcome, _, heq⟩
  · -- the slot is in use: its number is returned
    have hused : slot'.active ∧ slot'.sequence = sequence :=
      ⟨hsent.active ▸ hactive, hsent.sequence.trans hsequence⟩
    rw [heq]
    unfold returning
    rw [if_pos (by simpa using hused)]
    refine .take i slot' (.taken slot.callback slot.maxAttempts slot.resendOnTimeout ::
      (results.map .sent ++ [.returned])) hfree hput ?_ rfl ?_ ?_ ?_
    · show update _ sequence _ = update _ before.nextSequence _
      rw [hnext, journal_arm, hafter]
      simp
    · show 0 < before.nextSequence ∧ before.nextSequence ≤ _ ∧ before.nextSequence ≠ _
      rw [hnext]
      exact hnumber
    · intro j hj
      show _ ≠ before.nextSequence
      rw [hnext]
      exact hunused j hj
    · exact .returned hused.1 (hused.2.trans hnext.symm) hattempts hchunk hsent haccepted
  · -- it is not: nobody is told
    have hbusy : ((before.read ports).2.afterSends i slot' results sends).submitting = true :=
      hsubmitting
    rw [complete_submitting hbusy] at heq
    have hdropped : (before.attempt ports i).slots =
        update s.slots i { slot' with active := false } := by
      rw [heq]
      show update ((before.read ports).2.afterSends i slot' results sends).slots i _ = _
      rw [hput, update_idem, update_self]
    have hunder : (before.attempt ports i).journal =
        ((before.read ports).2.afterSends i slot' results sends).journal := by
      rw [heq]
      rfl
    have hcounter : (before.attempt ports i).nextSequence = sequence := by
      rw [heq]
      exact hnext
    unfold returning
    rw [if_neg (by simp [hdropped])]
    refine .take i { slot' with active := false }
      (.taken slot.callback slot.maxAttempts slot.resendOnTimeout :: results.map .sent) hfree
      hdropped ?_ rfl ?_ ?_ (.dropped rfl hattempts hchunk hsent hnone)
    · show (before.attempt ports i).journal =
        update _ (before.attempt ports i).nextSequence _
      rw [hunder, hafter, hcounter]
    · show 0 < (before.attempt ports i).nextSequence ∧ (before.attempt ports i).nextSequence ≤ _ ∧
        (before.attempt ports i).nextSequence ≠ _
      rw [hcounter]
      exact hnumber
    · intro j hj
      rw [hcounter]
      exact hunused j hj

theorem move_submit (hcounter : s.nextSequence ≤ int32Max) (args : Option α)
    (timeout maxAttempts : ℕ) (resendOnTimeout : Bool) (callback : Option ℕ) :
    Move P s (s.tbRequestsSubmit ports args timeout maxAttempts resendOnTimeout callback).1 := by
  unfold tbRequestsSubmit
  split
  · exact .same rfl rfl rfl rfl
  · rename_i i hfind
    have hfree : (s.slots i).active = false := by
      simpa using List.find?_some hfind
    split
    · exact .same rfl rfl rfl rfl
    · obtain ⟨hpos, hmax, hne, hunused⟩ := s.advance_free hcounter
      exact move_returning hfree rfl rfl rfl rfl rfl rfl rfl rfl ⟨hpos, hmax, hne⟩ hunused

theorem move_step (hidle : s.submitting = false) (hcounter : s.nextSequence ≤ int32Max)
    (event : RequestEvent α) (hmeets : QueueMeets P s event) :
    Move P s (s.step ports event) := by
  cases event with
  | submit args timeout maxAttempts resendOnTimeout callback =>
    simp only [TbRequestLayer.step]
    split
    · exact move_submit hcounter args timeout maxAttempts resendOnTimeout callback
    · exact .same rfl rfl rfl rfl
  | chunk sequence chunk total =>
    simp only [TbRequestLayer.step]
    split
    · exact move_chunk hidle sequence chunk total
    · exact .same rfl rfl rfl rfl
  | sendFailed sequence unreachable =>
    simp only [TbRequestLayer.step]
    split
    · exact move_sendFailed hidle sequence unreachable
    · exact .same rfl rfl rfl rfl
  | outboxReady =>
    simp only [TbRequestLayer.step]
    split
    · exact move_outboxReady hidle hmeets
    · exact .same rfl rfl rfl rfl
  | tick =>
    simp only [TbRequestLayer.step]
    split <;> exact .same rfl rfl rfl rfl
  | cancel sequence =>
    simp only [TbRequestLayer.step]
    split
    · exact move_cancel hidle sequence
    · exact .same rfl rfl rfl rfl
  | cancelAll | ret =>
    simp only [TbRequestLayer.step]
    split <;> exact .same rfl rfl rfl rfl
  | resume => exact move_resume hidle hmeets

end Operations

end Watch
