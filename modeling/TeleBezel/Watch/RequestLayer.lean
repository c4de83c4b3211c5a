import Mathlib.Order.Interval.Finset.Nat
import TeleBezel.Lib.Deadline
import TeleBezel.Watch.Requests

/-!
# The request layer of the watch

`app/src/c/request_layer.c`: four slots for requests to the phone, one timer for all of them, and a
counter that numbers the requests. A callback may call the layer again, also in the middle of
`tb_requests_tick` and `tb_requests_cancel_all`, so what is under way is a stack: the callbacks that
run, and the loops that go on when they return. The ports answer what they like, call after call.
What has happened under each sequence since it was given out is kept beside the layer.
-/

namespace Watch

open Word

variable {α : Type}

def tbQueueRetryMs : ℕ := 100

def int32Max : ℕ := 2147483647

inductive TbSendResult
  | ok
  | failed
  | unreachable
  | busy
deriving DecidableEq

/-- `TbRequestSlot`. A callback stands for the function and its owner. -/
structure TbRequestSlot (α : Type) where
  active : Bool := false
  queued : Bool := false
  resendOnTimeout : Bool := false
  unreachable : Bool := false
  attempts : ℕ := 0
  maxAttempts : ℕ := 0
  nextChunk : ℕ := 0
  sequence : ℕ := 0
  timeout : ℕ := 0
  deadline : ℕ := 0
  queuedSince : ℕ := 0
  callback : Option ℕ := none
  args : Option α := none

/-- `TbRequestPorts`, by what they return: the results of `send` and the readings of the clock, one
call after the other. -/
structure TbRequestPorts where
  send : ℕ → TbSendResult
  now : ℕ → ℕ

inductive RequestNote
  /-- A slot takes it. -/
  | taken (callback : Option ℕ) (maxAttempts : ℕ) (resendOnTimeout : Bool)
  /-- `tb_requests_submit` returns it. -/
  | returned
  | sent (result : TbSendResult)
  /-- `tb_requests_send_failed` is called for it. -/
  | sendFailed
  /-- A chunk of its answer is taken. -/
  | arrived
  /-- Its callback is called. -/
  | called (callback : ℕ) (response : TbResponse)
deriving DecidableEq

inductive RequestFrame
  /-- A callback runs, for a response with this outcome. -/
  | callback (outcome : TbRequestOutcome)
  /-- `tb_requests_tick` goes on at a slot, with the time it has read. -/
  | tick (index : ℕ) (now : ℕ)
  /-- `tb_requests_cancel_all` goes on at a slot. -/
  | cancelAll (index : ℕ)

/-- `TbRequestLayer`, with what the ports were told. -/
structure TbRequestLayer (α : Type) where
  slots : Fin 4 → TbRequestSlot α := fun _ => {}
  nextSequence : ℕ := 0
  submitting : Bool := false
  immediate : TbRequestOutcome := .timeout
  /-- How often `send` was called. -/
  sends : ℕ := 0
  /-- How often the clock was read. -/
  readings : ℕ := 0
  /-- The delay of the timer, when it is armed. -/
  timer : Option ℕ := none
  journal : ℕ → List RequestNote := fun _ => []
  stack : List RequestFrame := []

def TbRequestSlot.since (slot : TbRequestSlot α) (now : ℕ) : ℕ :=
  if slot.queued then slot.queuedSince else now

def TbRequestSlot.postponed (slot : TbRequestSlot α) (now : ℕ) : TbRequestSlot α :=
  { slot with
    queued := true
    queuedSince := slot.since now
    deadline := uint32 (now + tbQueueRetryMs : ℕ) }

def TbRequestSlot.sent (slot : TbRequestSlot α) (now : ℕ) : TbRequestSlot α :=
  { slot with
    attempts := slot.attempts + 1
    queued := false
    deadline := uint32 (now + slot.timeout : ℕ) }

def TbRequestSlot.refused (slot : TbRequestSlot α) (unreachable : Bool) : TbRequestSlot α :=
  { slot with attempts := slot.attempts + 1, queued := false, unreachable }

namespace TbRequestLayer

variable (layer : TbRequestLayer α)

def put (i : Fin 4) (slot : TbRequestSlot α) : TbRequestLayer α :=
  { layer with slots := Function.update layer.slots i slot }

def note (sequence : ℕ) (notes : List RequestNote) : TbRequestLayer α :=
  { layer with
    journal := Function.update layer.journal sequence (layer.journal sequence ++ notes) }

def find (sequence : ℕ) : Option (Fin 4) :=
  if sequence = 0 then none
  else (List.finRange 4).find? fun i =>
    (layer.slots i).active && (layer.slots i).sequence = sequence

def tbRequestsPending (sequence : ℕ) : Bool :=
  (List.finRange 4).any fun i => (layer.slots i).active && (layer.slots i).sequence = sequence

def remaining (now : ℕ) (slot : TbRequestSlot α) : ℕ := Deadline.remaining now slot.deadline

/-- The deadlines of the slots in use, which the loop of `arm` goes through. -/
def deadlines (slots : Fin 4 → TbRequestSlot α) : List ℕ :=
  ((List.finRange 4).filter fun i => (slots i).active).map fun i => (slots i).deadline

variable (ports : TbRequestPorts)

def read (layer : TbRequestLayer α) : ℕ × TbRequestLayer α :=
  (ports.now layer.readings, { layer with readings := layer.readings + 1 })

def arm (layer : TbRequestLayer α) : TbRequestLayer α :=
  let (now, layer) := layer.read ports
  { layer with timer := Deadline.delay now (deadlines layer.slots) }

def call (slot : TbRequestSlot α) (response : TbResponse) :
    TbRequestLayer α :=
  match slot.callback with
  | none => layer
  | some callback =>
    { layer.note slot.sequence [.called callback response] with
      stack := .callback response.outcome :: layer.stack }

def complete (layer : TbRequestLayer α) (i : Fin 4)
    (outcome : TbRequestOutcome) (result : ℤ) : TbRequestLayer α :=
  let slot := layer.slots i
  let layer := (layer.put i { slot with active := false }).arm ports
  if layer.submitting then { layer with immediate := outcome }
  else layer.call slot { outcome, result, final := true }

/-- The loop of `attempt`; the slot has as many attempts left as there are rounds. -/
def attemptLoop (ports : TbRequestPorts) (i : Fin 4) (now : ℕ) :
    ℕ → TbRequestLayer α → TbRequestLayer α
  | 0, layer =>
    let slot := layer.slots i
    layer.complete ports i (if slot.unreachable then .unreachable else .timeout) 0
  | rounds + 1, layer =>
    let slot := layer.slots i
    let sent := ports.send layer.sends
    let layer := { layer.note slot.sequence [.sent sent] with sends := layer.sends + 1 }
    match sent with
    | .busy =>
      if slot.queued ∧ Deadline.passed now (uint32 (slot.since now + slot.timeout : ℕ)) then
        layer.complete ports i (if slot.unreachable then .unreachable else .timeout) 0
      else (layer.put i (slot.postponed now)).arm ports
    | .ok => (layer.put i (slot.sent now)).arm ports
    | .failed => attemptLoop ports i now rounds (layer.put i (slot.refused false))
    | .unreachable => attemptLoop ports i now rounds (layer.put i (slot.refused true))

def attempt (layer : TbRequestLayer α) (i : Fin 4) : TbRequestLayer α :=
  let (now, layer) := layer.read ports
  attemptLoop ports i now ((layer.slots i).maxAttempts - (layer.slots i).attempts) layer

/-- The loop of `tb_requests_submit` that looks for a sequence; the counter is back where it was
after `2 ^ 32` rounds. -/
def advance (layer : TbRequestLayer α) : ℕ → ℕ → ℕ
  | 0, sequence => sequence
  | rounds + 1, sequence =>
    let sequence := uint32 (sequence + 1 : ℕ)
    if sequence = 0 ∨ int32Max < sequence ∨ (layer.find sequence).isSome then
      layer.advance rounds sequence
    else sequence

/-- `tb_requests_submit`, with what it returns. -/
def tbRequestsSubmit (layer : TbRequestLayer α) (args : Option α)
    (timeout maxAttempts : ℕ) (resendOnTimeout : Bool) (callback : Option ℕ) :
    TbRequestLayer α × ℕ :=
  match (List.finRange 4).find? fun i => !(layer.slots i).active with
  | none => ({ layer with immediate := .timeout }, 0)
  | some i =>
    if maxAttempts = 0 ∨ args.isNone then ({ layer with immediate := .timeout }, 0)
    else
      let sequence := layer.advance (2 ^ 32) layer.nextSequence
      let slot := { layer.slots i with
        active := true
        queued := false
        resendOnTimeout
        unreachable := false
        attempts := 0
        maxAttempts
        nextChunk := 0
        sequence
        timeout
        callback
        args }
      let layer : TbRequestLayer α := { layer.put i slot with
        nextSequence := sequence
        submitting := true
        immediate := .timeout
        journal := Function.update layer.journal sequence
          [.taken callback maxAttempts resendOnTimeout] }
      let layer : TbRequestLayer α := { layer.attempt ports i with submitting := false }
      if (layer.slots i).active ∧ (layer.slots i).sequence = sequence then
        (layer.note sequence [.returned], sequence)
      else (layer, 0)

/-- `tb_requests_chunk`, up to what it returns. -/
def tbRequestsChunk (layer : TbRequestLayer α) (sequence : ℕ)
    (chunk : TbResponse) (total : ℕ) : TbRequestLayer α :=
  match layer.find sequence with
  | none => layer
  | some i =>
    let slot := layer.slots i
    if total = 0 ∨ total ≤ chunk.index ∨ chunk.index ≠ slot.nextChunk then
      layer.complete ports i .protocol 0
    else
      let delivered := { chunk with outcome := .response, final := chunk.index + 1 = total }
      let layer := layer.note sequence [.arrived]
      let layer := if delivered.final then layer.put i { slot with active := false }
        else
          let (now, layer) := layer.read ports
          layer.put i { slot with
            nextChunk := slot.nextChunk + 1
            deadline := uint32 (now + slot.timeout : ℕ) }
      (layer.arm ports).call slot delivered

def tbRequestsSendFailed (layer : TbRequestLayer α) (sequence : ℕ)
    (unreachable : Bool) : TbRequestLayer α :=
  match layer.find sequence with
  | none => layer
  | some i =>
    let layer := layer.note sequence [.sendFailed]
    let slot := layer.slots i
    if 0 < slot.nextChunk then layer
    else (layer.put i { slot with unreachable }).attempt ports i

def tbRequestsOutboxReady (layer : TbRequestLayer α) : TbRequestLayer α :=
  match (List.finRange 4).find? fun i => (layer.slots i).active && (layer.slots i).queued with
  | none => layer
  | some i => layer.attempt ports i

/-- `tb_requests_tick`, up to its loop. -/
def tbRequestsTick (layer : TbRequestLayer α) : TbRequestLayer α :=
  let (now, layer) := layer.read ports
  { layer with stack := .tick 0 now :: layer.stack }

/-- The loop of `tb_requests_tick` at one slot. -/
def tickSlot (layer : TbRequestLayer α) (i : Fin 4) (now : ℕ) :
    TbRequestLayer α :=
  let slot := layer.slots i
  if !slot.active || !Deadline.passed now slot.deadline then layer
  else if slot.queued || (slot.resendOnTimeout && slot.nextChunk = 0) then
    (layer.put i { slot with unreachable := false }).attempt ports i
  else layer.complete ports i .timeout 0

def tbRequestsCancel (layer : TbRequestLayer α) (sequence : ℕ) :
    TbRequestLayer α :=
  match layer.find sequence with
  | none => layer
  | some i => layer.complete ports i .cancelled 0

/-- `tb_requests_cancel_all`, up to its loop. -/
def tbRequestsCancelAll : TbRequestLayer α :=
  { layer with stack := .cancelAll 0 :: layer.stack }

/-- The loop of `tb_requests_cancel_all` at one slot. -/
def cancelSlot (layer : TbRequestLayer α) (i : Fin 4) :
    TbRequestLayer α :=
  if (layer.slots i).active then layer.complete ports i .cancelled 0 else layer

def resume (layer : TbRequestLayer α) : TbRequestLayer α :=
  match layer.stack with
  | .tick index now :: rest =>
    if h : index < 4 then
      { layer with stack := .tick (index + 1) now :: rest }.tickSlot ports ⟨index, h⟩ now
    else { layer with stack := rest }.arm ports
  | .cancelAll index :: rest =>
    if h : index < 4 then
      { layer with stack := .cancelAll (index + 1) :: rest }.cancelSlot ports ⟨index, h⟩
    else { layer with stack := rest, timer := none }
  | _ => layer

def callable : Bool :=
  match layer.stack with
  | [] => true
  | .callback _ :: _ => true
  | _ => false

end TbRequestLayer

inductive RequestEvent (α : Type)
  | submit (args : Option α) (timeout maxAttempts : ℕ) (resendOnTimeout : Bool)
      (callback : Option ℕ)
  | chunk (sequence : ℕ) (chunk : TbResponse) (total : ℕ)
  | sendFailed (sequence : ℕ) (unreachable : Bool)
  | outboxReady
  | tick
  | cancel (sequence : ℕ)
  | cancelAll
  /-- The callback that runs returns. -/
  | ret
  /-- The loop that waits for nothing goes on. -/
  | resume

/-- Everything that can happen. A call is possible when nothing is under way and in a callback. -/
def TbRequestLayer.step (ports : TbRequestPorts) (layer : TbRequestLayer α) :
    RequestEvent α → TbRequestLayer α
  | .submit args timeout maxAttempts resendOnTimeout callback =>
    if layer.callable then
      (layer.tbRequestsSubmit ports args timeout maxAttempts resendOnTimeout callback).1
    else layer
  | .chunk sequence chunk total =>
    if layer.callable then layer.tbRequestsChunk ports sequence chunk total else layer
  | .sendFailed sequence unreachable =>
    if layer.callable then layer.tbRequestsSendFailed ports sequence unreachable else layer
  | .outboxReady => if layer.callable then layer.tbRequestsOutboxReady ports else layer
  | .tick => if layer.callable then layer.tbRequestsTick ports else layer
  | .cancel sequence => if layer.callable then layer.tbRequestsCancel ports sequence else layer
  | .cancelAll => if layer.callable then layer.tbRequestsCancelAll else layer
  | .ret =>
    match layer.stack with
    | .callback _ :: rest => { layer with stack := rest }
    | _ => layer
  | .resume => layer.resume ports

namespace TbRequestLayer

section Fields

variable {ports : TbRequestPorts} {layer : TbRequestLayer α} {i : Fin 4} {slot : TbRequestSlot α}
  {sequence : ℕ} {notes : List RequestNote} {response : TbResponse}

@[simp] theorem slots_put : (layer.put i slot).slots = Function.update layer.slots i slot := rfl

@[simp] theorem journal_put : (layer.put i slot).journal = layer.journal := rfl

@[simp] theorem submitting_put : (layer.put i slot).submitting = layer.submitting := rfl

@[simp] theorem slots_note : (layer.note sequence notes).slots = layer.slots := rfl

@[simp] theorem submitting_note : (layer.note sequence notes).submitting = layer.submitting := rfl

@[simp] theorem slots_arm : (layer.arm ports).slots = layer.slots := rfl

@[simp] theorem journal_arm : (layer.arm ports).journal = layer.journal := rfl

@[simp] theorem submitting_arm : (layer.arm ports).submitting = layer.submitting := rfl

@[simp] theorem slots_call : (layer.call slot response).slots = layer.slots := by
  unfold call
  split <;> rfl

@[simp] theorem submitting_call : (layer.call slot response).submitting = layer.submitting := by
  unfold call
  split <;> rfl

end Fields

end TbRequestLayer

structure TbRequestSlot.Kept (slot slot' : TbRequestSlot α) : Prop where
  active : slot'.active = slot.active
  resendOnTimeout : slot'.resendOnTimeout = slot.resendOnTimeout
  maxAttempts : slot'.maxAttempts = slot.maxAttempts
  nextChunk : slot'.nextChunk = slot.nextChunk
  sequence : slot'.sequence = slot.sequence
  callback : slot'.callback = slot.callback

/-- A slot after some sends: those that were not put off are counted, up to the limit. -/
structure TbRequestSlot.Sent (slot slot' : TbRequestSlot α) (results : List TbSendResult) : Prop
    extends slot.Kept slot' where
  attempts : slot'.attempts = slot.attempts + results.countP (· ≠ .busy)
  limit : slot.attempts ≤ slot.maxAttempts → slot'.attempts ≤ slot.maxAttempts

namespace TbRequestLayer

variable (layer : TbRequestLayer α)

def afterSends (i : Fin 4) (slot : TbRequestSlot α)
    (results : List TbSendResult) (sends : ℕ) : TbRequestLayer α :=
  { (layer.put i slot).note (layer.slots i).sequence (results.map .sent) with sends }

variable {i : Fin 4}

@[simp] theorem slots_afterSends {layer : TbRequestLayer α} {slot : TbRequestSlot α}
    {results : List TbSendResult} {sends : ℕ} :
    (layer.afterSends i slot results sends).slots i = slot := by
  simp [afterSends]

theorem afterSends_afterSends {layer : TbRequestLayer α} {slot slot' : TbRequestSlot α}
    {results results' : List TbSendResult} {sends sends' : ℕ}
    (h : slot.sequence = (layer.slots i).sequence) :
    (layer.afterSends i slot results sends).afterSends i slot' results' sends' =
      layer.afterSends i slot' (results ++ results') sends' := by
  simp [afterSends, put, note, h]

def Accepted (slot : TbRequestSlot α) (results : List TbSendResult) : Prop :=
  ∃ before last, results = before ++ [last] ∧ (∀ other ∈ before, other ≠ .ok) ∧
    (last = .ok ∧ slot.queued = false ∨ last = .busy ∧ slot.queued = true)

variable (ports : TbRequestPorts)

/-- What `attempt` does with a slot: after sends that fail one is taken or put off, and the timer is
armed; or none is, and the request ends. -/
def Attempted (layer : TbRequestLayer α) (i : Fin 4) (result : TbRequestLayer α) : Prop :=
  ∃ slot results sends, (layer.slots i).Sent slot results ∧
    ((Accepted slot results ∧ result = (layer.afterSends i slot results sends).arm ports) ∨
      ((∀ other ∈ results, other ≠ .ok) ∧ ∃ outcome, outcome ≠ .response ∧
        result = (layer.afterSends i slot results sends).complete ports i outcome 0))

theorem Attempted.cons {ports : TbRequestPorts} {layer result : TbRequestLayer α}
    (slot : TbRequestSlot α) {failure : TbSendResult} {sends : ℕ}
    (hkept : (layer.slots i).Kept slot) (hattempts : slot.attempts = (layer.slots i).attempts + 1)
    (hless : (layer.slots i).attempts < (layer.slots i).maxAttempts)
    (hok : failure ≠ .ok) (hbusy : failure ≠ .busy)
    (h : Attempted ports (layer.afterSends i slot [failure] sends) i result) :
    Attempted ports layer i result := by
  obtain ⟨slot', results, sends', hsent, hcase⟩ := h
  rw [slots_afterSends] at hsent
  have hjoined : (layer.slots i).Sent slot' (failure :: results) := by
    refine ⟨⟨hsent.active.trans hkept.active,
      hsent.resendOnTimeout.trans hkept.resendOnTimeout,
      hsent.maxAttempts.trans hkept.maxAttempts, hsent.nextChunk.trans hkept.nextChunk,
      hsent.sequence.trans hkept.sequence, hsent.callback.trans hkept.callback⟩, ?_, ?_⟩
    · have hcount : (failure :: results).countP (· ≠ .busy) = results.countP (· ≠ .busy) + 1 :=
        List.countP_cons_of_pos (by simpa using hbusy)
      rw [hsent.attempts, hattempts, hcount]
      omega
    · intro _
      rw [← hkept.maxAttempts]
      refine hsent.limit ?_
      rw [hattempts, hkept.maxAttempts]
      exact hless
  have hnot : ∀ others : List TbSendResult, (∀ other ∈ others, other ≠ .ok) →
      ∀ other ∈ failure :: others, other ≠ .ok := by
    intro others hothers other hother
    rcases List.mem_cons.mp hother with rfl | hmem
    · exact hok
    · exact hothers other hmem
  refine ⟨slot', failure :: results, sends', hjoined, ?_⟩
  rcases hcase with ⟨⟨before, last, rfl, hbefore, hlast⟩, heq⟩ | ⟨hnone, outcome, hend, heq⟩
  · refine Or.inl ⟨⟨failure :: before, last, rfl, hnot before hbefore, hlast⟩, ?_⟩
    rw [heq, afterSends_afterSends hkept.sequence]
    rfl
  · refine Or.inr ⟨hnot results hnone, outcome, hend, ?_⟩
    rw [heq, afterSends_afterSends hkept.sequence]
    rfl

theorem attempted_attemptLoop (i : Fin 4) (now rounds : ℕ) (layer : TbRequestLayer α)
    (hrounds : rounds = (layer.slots i).maxAttempts - (layer.slots i).attempts) :
    Attempted ports layer i (attemptLoop ports i now rounds layer) := by
  induction rounds generalizing layer with
  | zero =>
    refine ⟨layer.slots i, [], layer.sends, ⟨⟨rfl, rfl, rfl, rfl, rfl, rfl⟩, rfl, fun h => h⟩,
      Or.inr ⟨by simp, if (layer.slots i).unreachable then .unreachable else .timeout, ?_, ?_⟩⟩
    · split <;> decide
    · simp [attemptLoop, afterSends, put, note]
  | succ rounds ih =>
    have hless : (layer.slots i).attempts < (layer.slots i).maxAttempts := by omega
    unfold attemptLoop
    dsimp only
    split
    · rename_i hbusy
      rw [hbusy]
      split
      · -- it has been put off for too long
        refine ⟨layer.slots i, [.busy], layer.sends + 1,
          ⟨⟨rfl, rfl, rfl, rfl, rfl, rfl⟩, rfl, fun h => h⟩, Or.inr ⟨by simp, ?_⟩⟩
        refine ⟨if (layer.slots i).unreachable then .unreachable else .timeout, ?_, ?_⟩
        · split <;> decide
        · simp [afterSends, put, note]
      · exact ⟨(layer.slots i).postponed now, [.busy], layer.sends + 1,
          ⟨⟨rfl, rfl, rfl, rfl, rfl, rfl⟩, rfl, fun h => h⟩,
          Or.inl ⟨⟨[], .busy, rfl, by simp, Or.inr ⟨rfl, rfl⟩⟩, rfl⟩⟩
    · rename_i hsend
      rw [hsend]
      exact ⟨(layer.slots i).sent now, [.ok], layer.sends + 1,
        ⟨⟨rfl, rfl, rfl, rfl, rfl, rfl⟩, rfl, fun _ => hless⟩,
        Or.inl ⟨⟨[], .ok, rfl, by simp, Or.inl ⟨rfl, rfl⟩⟩, rfl⟩⟩
    · rename_i hsend
      rw [hsend]
      refine Attempted.cons ((layer.slots i).refused false) ⟨rfl, rfl, rfl, rfl, rfl, rfl⟩
        rfl hless (by decide) (by decide) (ih _ ?_)
      rw [slots_afterSends]
      show rounds = (layer.slots i).maxAttempts - ((layer.slots i).attempts + 1)
      omega
    · rename_i hsend
      rw [hsend]
      refine Attempted.cons ((layer.slots i).refused true) ⟨rfl, rfl, rfl, rfl, rfl, rfl⟩
        rfl hless (by decide) (by decide) (ih _ ?_)
      rw [slots_afterSends]
      show rounds = (layer.slots i).maxAttempts - ((layer.slots i).attempts + 1)
      omega

theorem attempted_attempt (layer : TbRequestLayer α) (i : Fin 4) :
    Attempted ports (layer.read ports).2 i (layer.attempt ports i) :=
  attempted_attemptLoop ports i _ _ _ rfl

/-- The number `k` steps after a sequence is free. -/
def FreeAt (sequence k : ℕ) : Prop :=
  0 < uint32 (sequence + k : ℕ) ∧ uint32 (sequence + k : ℕ) ≤ int32Max ∧
    layer.find (uint32 (sequence + k : ℕ)) = none

theorem advance_spec (rounds sequence k : ℕ) (hpos : 0 < k)
    (hk : k ≤ rounds) (hfree : layer.FreeAt sequence k) :
    ∃ n, 0 < n ∧ n ≤ k ∧ layer.FreeAt sequence n ∧
      layer.advance rounds sequence = uint32 (sequence + n : ℕ) := by
  induction rounds generalizing sequence k with
  | zero => omega
  | succ rounds ih =>
    unfold advance
    dsimp only
    split
    · rename_i htaken
      have hsame : ∀ m, uint32 (uint32 (sequence + 1 : ℕ) + m : ℕ) =
          uint32 (sequence + (m + 1) : ℕ) := by
        intro m
        unfold uint32
        omega
      -- the first number is not the free one
      have hne : k ≠ 1 := by
        rintro rfl
        obtain ⟨hzero, hmax, hnone⟩ := hfree
        rcases htaken with h | h | h
        · omega
        · omega
        · rw [hnone] at h
          exact absurd h (by simp)
      have hnext : layer.FreeAt (uint32 (sequence + 1 : ℕ)) (k - 1) := by
        unfold FreeAt
        rw [hsame, Nat.sub_add_cancel hpos]
        exact hfree
      obtain ⟨n, hn, hle, hfound, heq⟩ := ih _ (k - 1) (by omega) (by omega) hnext
      refine ⟨n + 1, by omega, by omega, ?_, ?_⟩
      · unfold FreeAt at hfound ⊢
        rw [← hsame]
        exact hfound
      · rw [heq, hsame]
    · rename_i h
      simp only [not_or] at h
      refine ⟨1, by omega, by omega, ⟨by omega, by omega, ?_⟩, rfl⟩
      simpa using h.2.2

variable {sequence : ℕ}

theorem find_eq_none_iff {layer : TbRequestLayer α} (hpos : 0 < sequence) :
    layer.find sequence = none ↔
      ∀ i, (layer.slots i).active → (layer.slots i).sequence ≠ sequence := by
  simp [find, hpos.ne']

theorem find_eq_some {layer : TbRequestLayer α} (h : layer.find sequence = some i) :
    0 < sequence ∧ (layer.slots i).active ∧ (layer.slots i).sequence = sequence := by
  unfold find at h
  split at h
  · exact absurd h (by simp)
  · rename_i hpos
    have hfound := List.find?_some h
    simp only [Bool.and_eq_true, decide_eq_true_eq] at hfound
    exact ⟨Nat.pos_of_ne_zero hpos, hfound.1, hfound.2⟩

theorem exists_free (last : ℕ) : ∃ n, 0 < n ∧ n ≤ 6 ∧ n ≠ last ∧
    ∀ i, (layer.slots i).active → (layer.slots i).sequence ≠ n := by
  -- the numbers in use and the last one are at most five
  let used := insert last (Finset.univ.image fun i => (layer.slots i).sequence)
  have hcard : used.card < (Finset.Icc 1 6).card := by
    have himage : (Finset.univ.image fun i => (layer.slots i).sequence).card ≤ 4 :=
      Finset.card_image_le
    have hinsert : used.card ≤ (Finset.univ.image fun i => (layer.slots i).sequence).card + 1 :=
      Finset.card_insert_le _ _
    rw [Nat.card_Icc]
    omega
  obtain ⟨n, hn, hnot⟩ := Finset.exists_mem_notMem_of_card_lt_card hcard
  simp only [Finset.mem_Icc] at hn
  simp only [used, Finset.mem_insert, Finset.mem_image, Finset.mem_univ, true_and, not_or,
    not_exists] at hnot
  exact ⟨n, hn.1, hn.2, hnot.1, fun i _ => hnot.2 i⟩

/-- **The next sequence** is a number from one to `INT32_MAX` that no slot in use has, and not the
one given out last. -/
theorem advance_free (hmax : sequence ≤ int32Max) :
    0 < layer.advance (2 ^ 32) sequence ∧ layer.advance (2 ^ 32) sequence ≤ int32Max ∧
      layer.advance (2 ^ 32) sequence ≠ sequence ∧
      ∀ i, (layer.slots i).active → (layer.slots i).sequence ≠ layer.advance (2 ^ 32) sequence := by
  obtain ⟨n, hpos, hle, hne, hunused⟩ := layer.exists_free sequence
  -- the steps from the sequence to the free number, around the end of the words if need be
  let k := uint32 ((n : ℤ) - sequence)
  have hsteps : uint32 (sequence + k : ℕ) = n ∧ 0 < k ∧ k < 2 ^ 32 := by
    simp only [k]
    unfold uint32
    unfold int32Max at hmax
    omega
  have hfree : layer.FreeAt sequence k := by
    unfold FreeAt
    rw [hsteps.1]
    exact ⟨hpos, hle.trans (by decide), (find_eq_none_iff hpos).mpr hunused⟩
  obtain ⟨m, hm, hmk, ⟨hzero, hbound, hnone⟩, heq⟩ :=
    layer.advance_spec (2 ^ 32) sequence k hsteps.2.1 hsteps.2.2.le hfree
  rw [heq]
  refine ⟨hzero, hbound, ?_, (find_eq_none_iff hzero).mp hnone⟩
  have hless : m < 2 ^ 32 := lt_of_le_of_lt hmk hsteps.2.2
  unfold uint32
  omega

end TbRequestLayer

end Watch
