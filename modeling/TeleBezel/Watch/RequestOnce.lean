import TeleBezel.Watch.RequestMoves

/-!
# Every request ends once

A request that `tb_requests_submit` has returned is told its chunks in order and then its end, once,
when it stops being pending; one that was not returned is told nothing. This holds for all answers
of the ports and for callbacks that call the layer again, in the middle of its loops as well: a
slot is given up before its callback is called, and the loops read the slots anew.
-/

open List

namespace Watch

open Word Transition

variable {α : Type} {ports : TbRequestPorts} {s : TbRequestLayer α} {i : Fin 4}
  {slot : TbRequestSlot α}

def called (notes : List RequestNote) : List (ℕ × TbResponse) :=
  notes.filterMap fun note =>
    match note with
    | .called callback response => some (callback, response)
    | _ => none

def Chunks (responses : List TbResponse) : Prop :=
  ∀ (n : ℕ) (response : TbResponse), responses[n]? = some response →
    response.outcome = .response ∧ response.index = n ∧ response.final = false

structure Opened (slot : TbRequestSlot α) (notes : List RequestNote) : Prop where
  taken : notes.head? = some (.taken slot.callback slot.maxAttempts slot.resendOnTimeout)
  returned : .returned ∈ notes
  told : ∀ callback, slot.callback = some callback → ∃ chunks, Chunks chunks ∧
    chunks.length = slot.nextChunk ∧ called notes = chunks.map (callback, ·)

/-- The journal of a sequence that is not pending: it has ended, or it was not returned. -/
def Closed (notes : List RequestNote) : Prop :=
  ∀ callback maxAttempts resendOnTimeout,
    notes.head? = some (.taken (some callback) maxAttempts resendOnTimeout) →
      (.returned ∈ notes → ∃ chunks last, Chunks chunks ∧ last.final = true ∧
        (last.outcome = .response → last.index = chunks.length) ∧
        called notes = (chunks ++ [last]).map (callback, ·)) ∧
      (.returned ∉ notes → called notes = [])

theorem called_append (notes notes' : List RequestNote) :
    called (notes ++ notes') = called notes ++ called notes' := by
  simp [called]

theorem called_sent (results : List TbSendResult) : called (results.map .sent) = [] := by
  simp [called]

theorem chunks_nil : Chunks [] := by
  intro n response h
  exact absurd h (by simp)

theorem Chunks.snoc {chunks : List TbResponse} (h : Chunks chunks) {response : TbResponse}
    (houtcome : response.outcome = .response) (hindex : response.index = chunks.length)
    (hfinal : response.final = false) : Chunks (chunks ++ [response]) := by
  intro n other hother
  rcases Nat.lt_or_ge n chunks.length with hlt | hge
  · rw [List.getElem?_append_left hlt] at hother
    exact h n other hother
  · rw [List.getElem?_append_right hge] at hother
    obtain ⟨hn, rfl⟩ : n - chunks.length = 0 ∧ response = other := by
      cases hk : n - chunks.length with
      | zero => simpa [hk] using hother
      | succ k => simp [hk] at hother
    exact ⟨houtcome, by omega, hfinal⟩

variable {notes more : List RequestNote}

theorem head?_append {note : RequestNote} (h : notes.head? = some note) :
    (notes ++ more).head? = some note := by
  rw [List.head?_append, h]
  rfl

theorem Opened.append (h : Opened slot notes) {slot' : TbRequestSlot α} (hkept : slot.Kept slot')
    (hmore : called more = []) : Opened slot' (notes ++ more) := by
  constructor
  · rw [hkept.callback, hkept.maxAttempts, hkept.resendOnTimeout]
    exact head?_append h.taken
  · exact mem_append_left _ h.returned
  · intro callback hcallback
    rw [hkept.callback] at hcallback
    obtain ⟨chunks, hchunks, hlength, htold⟩ := h.told callback hcallback
    refine ⟨chunks, hchunks, hlength.trans hkept.nextChunk.symm, ?_⟩
    rw [called_append, hmore, append_nil, htold]

theorem Opened.close (h : Opened slot notes) {last : TbResponse} (hfinal : last.final = true)
    (hindex : last.outcome = .response → last.index = slot.nextChunk) :
    Closed (notes ++ lastNotes slot last) := by
  intro callback maxAttempts resendOnTimeout hhead
  have hcallback : slot.callback = some callback := by
    rw [head?_append h.taken] at hhead
    injection hhead with htaken
    injection htaken
  refine ⟨fun _ => ?_, fun hnot => absurd (mem_append_left _ h.returned) hnot⟩
  obtain ⟨chunks, hchunks, hlength, htold⟩ := h.told callback hcallback
  refine ⟨chunks, last, hchunks, hfinal, fun hresponse => (hindex hresponse).trans hlength.symm, ?_⟩
  rw [called_append, htold, lastNotes, hcallback, map_append]
  rfl

theorem Opened.chunk (h : Opened slot notes) {slot' : TbRequestSlot α} {response : TbResponse}
    (hcallback : slot'.callback = slot.callback) (hmax : slot'.maxAttempts = slot.maxAttempts)
    (hresend : slot'.resendOnTimeout = slot.resendOnTimeout)
    (hnext : slot'.nextChunk = slot.nextChunk + 1) (houtcome : response.outcome = .response)
    (hindex : response.index = slot.nextChunk) (hfinal : response.final = false) :
    Opened slot' (notes ++ lastNotes slot response) := by
  constructor
  · rw [hcallback, hmax, hresend]
    exact head?_append h.taken
  · exact mem_append_left _ h.returned
  · intro callback hsome
    rw [hcallback] at hsome
    obtain ⟨chunks, hchunks, hlength, htold⟩ := h.told callback hsome
    refine ⟨chunks ++ [response], hchunks.snoc houtcome (hindex.trans hlength.symm) hfinal, ?_, ?_⟩
    · rw [length_append, hlength, hnext]
      rfl
    · rw [called_append, htold, lastNotes, hsome, map_append]
      rfl

theorem Opened.arrived (h : Opened slot notes) : Opened slot (notes ++ [.arrived]) :=
  h.append ⟨rfl, rfl, rfl, rfl, rfl, rfl⟩ rfl

theorem Reason.called_eq_nil {P : TbRequestSlot α → Prop} (h : Reason P slot notes) :
    called notes = [] := by
  cases h with
  | failed => rfl
  | queued => rfl
  | resend => rfl

theorem told_rules : Rules (fun _ : TbRequestSlot α => True) Opened Closed where
  empty := by
    intro callback maxAttempts resendOnTimeout hhead
    exact absurd hhead (by simp)
  changed := by
    intro slot slot' notes more hchanged hopened
    cases hchanged with
    | sent hreason hsent =>
      refine hopened.append hsent.toKept ?_
      rw [called_append, hreason.called_eq_nil, called_sent]
      rfl
    | failed _ hsame =>
      rw [hsame]
      exact hopened.append ⟨rfl, rfl, rfl, rfl, rfl, rfl⟩ rfl
    | chunk houtcome hindex hfinal hslot =>
      rw [hslot, append_cons]
      exact hopened.arrived.chunk rfl rfl rfl rfl houtcome hindex hfinal
  ended := by
    intro slot notes more hended hopened
    cases hended with
    | @sent pre slot' results outcome hreason hsent _ houtcome =>
      have hafter : Opened slot' (notes ++ (pre ++ results.map .sent)) := by
        refine hopened.append hsent.toKept ?_
        rw [called_append, hreason.called_eq_nil, called_sent]
        rfl
      rw [← append_assoc]
      refine hafter.close rfl ?_
      intro hresponse
      exact absurd hresponse houtcome
    | told houtcome =>
      refine hopened.close rfl ?_
      intro hresponse
      exact absurd hresponse houtcome
    | chunk hindex hfinal =>
      rw [append_cons]
      exact hopened.arrived.close hfinal fun _ => hindex
  returned := by
    intro sequence slot notes hbegan hactive
    cases hbegan with
    | @returned first results _ _ _ hchunk hsent =>
      refine ⟨?_, by simp, ?_⟩
      · rw [hsent.callback, hsent.maxAttempts, hsent.resendOnTimeout]
        rfl
      · intro callback _
        refine ⟨[], chunks_nil, ?_, ?_⟩
        · rw [hsent.nextChunk, hchunk]
          rfl
        · show called (results.map .sent ++ [.returned]) = []
          rw [called_append, called_sent]
          rfl
    | dropped hfree =>
      rw [hfree] at hactive
      exact absurd hactive (by decide)
  dropped := by
    intro sequence slot notes hbegan hfree
    cases hbegan with
    | returned hactive =>
      rw [hfree] at hactive
      exact absurd hactive (by decide)
    | @dropped _ _ results =>
      intro callback maxAttempts resendOnTimeout _
      refine ⟨fun hreturned => absurd hreturned (by simp), fun _ => ?_⟩
      exact called_sent results

theorem told_foldl (ports : TbRequestPorts) (events : List (RequestEvent α))
    (h : Ledger Opened Closed s) :
    Ledger Opened Closed (events.foldl (TbRequestLayer.step ports) s) := by
  induction events generalizing s with
  | nil => exact h
  | cons event events ih =>
    have hmove : Move (fun _ => True) s (s.step ports event) :=
      move_step h.idle h.counter event (queueMeets_of_forall (fun _ => trivial) event)
    exact ih (h.move told_rules hmove)

def Counting (ports : TbRequestPorts) (s : TbRequestLayer α) (event : RequestEvent α)
    (s' : TbRequestLayer α) : Prop :=
  s.step ports event = s' ∧ s.nextSequence ≤ s'.nextSequence

theorem Unused.run {q : ℕ} {events : List (RequestEvent α)} {s' : TbRequestLayer α}
    (hrun : Run (Counting ports) s events s') (h : Ledger Opened Closed s)
    (hunused : Unused s q) (hq : q ≤ s.nextSequence) :
    Ledger Opened Closed s' ∧ Unused s' q ∧ q ≤ s'.nextSequence ∧ s'.journal q = s.journal q := by
  induction hrun with
  | nil => exact ⟨h, hunused, hq, rfl⟩
  | @snoc last _ _ event _ hstep ih =>
    obtain ⟨hledger, hfree, hle, hsame⟩ := ih
    obtain ⟨rfl, hgrows⟩ := hstep
    have hmove : Move (fun _ => True) last (last.step ports event) :=
      move_step hledger.idle hledger.counter event (queueMeets_of_forall (fun _ => trivial) event)
    obtain ⟨hfree', hsame'⟩ := hfree.move hmove (by omega)
    exact ⟨hledger.move told_rules hmove, hfree', by omega, hsame'.trans hsame⟩

theorem tbRequestsPending_eq_false_iff {q : ℕ} : s.tbRequestsPending q = false ↔ Unused s q := by
  simp [TbRequestLayer.tbRequestsPending, Unused]

theorem tbRequestsPending_eq_true_iff {q : ℕ} :
    s.tbRequestsPending q = true ↔ ∃ i, (s.slots i).active ∧ (s.slots i).sequence = q := by
  simp [TbRequestLayer.tbRequestsPending]

/-- A request is told its chunks in order, and its end once. -/
structure ToldOnce (ports : TbRequestPorts) (s : TbRequestLayer α) : Prop where
  numbers : ∀ i, (s.slots i).active → 0 < (s.slots i).sequence ∧ (s.slots i).sequence ≤ int32Max
  distinct : ∀ i j, (s.slots i).active → (s.slots j).active →
    (s.slots i).sequence = (s.slots j).sequence → i = j
  /-- A request that was returned and is pending was told some chunks, in order. -/
  pending : ∀ q callback maxAttempts resendOnTimeout,
    (s.journal q).head? = some (.taken (some callback) maxAttempts resendOnTimeout) →
    .returned ∈ s.journal q → s.tbRequestsPending q = true →
    ∃ chunks, Chunks chunks ∧ called (s.journal q) = chunks.map (callback, ·)
  /-- A request that was returned and is not pending was also told its end. -/
  ended : ∀ q callback maxAttempts resendOnTimeout,
    (s.journal q).head? = some (.taken (some callback) maxAttempts resendOnTimeout) →
    .returned ∈ s.journal q → s.tbRequestsPending q = false →
    ∃ chunks last, Chunks chunks ∧ last.final = true ∧
      (last.outcome = .response → last.index = chunks.length) ∧
      called (s.journal q) = (chunks ++ [last]).map (callback, ·)
  /-- A request that was not returned is not pending and was told nothing. -/
  refused : ∀ q callback maxAttempts resendOnTimeout,
    (s.journal q).head? = some (.taken (some callback) maxAttempts resendOnTimeout) →
    .returned ∉ s.journal q → s.tbRequestsPending q = false ∧ called (s.journal q) = []
  /-- Nothing more happens under a number that is not pending until the counter wraps. -/
  after : ∀ q events s', Run (Counting ports) s events s' → q ≤ s.nextSequence →
    s.tbRequestsPending q = false →
    s'.tbRequestsPending q = false ∧ s'.journal q = s.journal q

theorem Ledger.toldOnce (h : Ledger Opened Closed s) : ToldOnce ports s where
  numbers := h.numbers
  distinct := h.distinct
  pending := by
    intro q callback maxAttempts resendOnTimeout hhead _ hpending
    obtain ⟨i, hactive, rfl⟩ := tbRequestsPending_eq_true_iff.mp hpending
    have hopened := h.opened i hactive
    have hcallback : (s.slots i).callback = some callback := by
      rw [hopened.taken] at hhead
      injection hhead with htaken
      injection htaken
    obtain ⟨chunks, hchunks, -, htold⟩ := hopened.told callback hcallback
    exact ⟨chunks, hchunks, htold⟩
  ended := by
    intro q callback maxAttempts resendOnTimeout hhead hreturned hpending
    have hclosed := h.closed q (tbRequestsPending_eq_false_iff.mp hpending)
    exact (hclosed callback maxAttempts resendOnTimeout hhead).1 hreturned
  refused := by
    intro q callback maxAttempts resendOnTimeout hhead hreturned
    have hunused : Unused s q := by
      rintro i hactive rfl
      exact hreturned (h.opened i hactive).returned
    exact ⟨tbRequestsPending_eq_false_iff.mpr hunused,
      (h.closed q hunused callback maxAttempts resendOnTimeout hhead).2 hreturned⟩
  after := by
    intro q events s' hrun hq hpending
    obtain ⟨-, hunused, -, hsame⟩ :=
      Unused.run hrun h (tbRequestsPending_eq_false_iff.mp hpending) hq
    exact ⟨tbRequestsPending_eq_false_iff.mpr hunused, hsame⟩

/-- **Every request ends once.** Whatever the ports answer and whatever the callbacks call: the slots
in use have different numbers from one to `INT32_MAX`; a request that was returned is told its
chunks in order and, when it stops being pending, its end, once, and nothing more until the counter
wraps; one that was not returned is told nothing. -/
theorem told_once_of_run (ports : TbRequestPorts) (events : List (RequestEvent α)) :
    ToldOnce ports (events.foldl (TbRequestLayer.step ports) {}) :=
  (told_foldl ports events told_rules.start).toldOnce

def takingPorts : TbRequestPorts where
  send := fun _ => .ok
  now := fun _ => 0

/-- A request gets two chunks; in the callback of the last one another request is submitted and
cancelled. -/
def twoChunks : List (RequestEvent Unit) :=
  [.submit (some ()) 1000 1 false (some 7), .chunk 1 { outcome := .response, index := 0 } 2, .ret,
    .chunk 1 { outcome := .response, index := 1 } 2, .submit (some ()) 1000 1 false (some 8),
    .cancel 2, .ret, .ret]

theorem told_once_of_run_chunks :
    called ((twoChunks.foldl (TbRequestLayer.step takingPorts) {}).journal 1) =
      [(7, { outcome := .response, index := 0, final := false }),
        (7, { outcome := .response, index := 1 })] ∧
    called ((twoChunks.foldl (TbRequestLayer.step takingPorts) {}).journal 2) =
      [(8, { outcome := .cancelled })] ∧
    ToldOnce takingPorts (twoChunks.foldl (TbRequestLayer.step takingPorts) {}) :=
  ⟨by decide, by decide, told_once_of_run takingPorts twoChunks⟩

end Watch
