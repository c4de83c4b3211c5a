import TeleBezel.Lib.Transition
import TeleBezel.Lib.Word
import TeleBezel.Watch.Requests

/-!
# The send tracker of the watch

`app/src/c/send_tracker.c` follows one draft: it submits it, asks after it, and takes the records
that tell its state, from the answer to its request or pushed by the phone. `apply` lets no
record that is not settled change a settled state, but the branch of `completed` for a request
without an answer asks nothing, and a record that says failed counts as settled as well.
-/

namespace Watch

open Word Transition

inductive TbSendPhase
  | idle
  | submitting
  | pending
  | sent
  | failed
  | unknown
deriving DecidableEq

structure TbSendTarget where
  account : CString := []
  chat : CString := []
  reply : CString := []

structure TbSendStatus where
  draftId : ℕ := 0
  phase : TbSendPhase := .idle
  code : ℤ := 0
  retryAfter : ℕ := 0
  flags : ℕ := 0
  restored : Bool := false
  target : TbSendTarget := {}
  message : CString := []
  title : CString := []
  preview : CString := []

/-- What the tracker calls: the request layer, and its `changed` port with the status. -/
inductive SendCall
  | request (check : Bool) (draftId attempt : ℕ) (account chat message : CString)
  | cancel (sequence : ℕ)
  | changed (status : TbSendStatus)

/-- `TbSendTracker`, with the calls it has made. -/
structure TbSendTracker where
  status : TbSendStatus := {}
  pending : ℕ := 0
  attempt : ℕ := 0
  calls : List SendCall := []

def tbSendTitleSize : ℕ := 33

def tbSendPreviewSize : ℕ := 41

def tbSendFlagRetryable : ℕ := 1

def phaseOf : ℕ → TbSendPhase
  | 1 => .sent
  | 2 => .failed
  | 3 => .unknown
  | _ => .pending

def settled (phase : TbSendPhase) : Bool := phase = .sent || phase = .failed

def sameTarget (target : TbSendTarget) (record : TbSendStateRecord) : Bool :=
  tbCopySpan tbAccountIdSize record.account = target.account &&
    tbCopySpan tbTelegramIdSize record.chat = target.chat

namespace TbSendTracker

variable (tracker : TbSendTracker)

def notify : TbSendTracker :=
  { tracker with calls := tracker.calls ++ [.changed tracker.status] }

variable (submitted : Submitted)

def submit (tracker : TbSendTracker) (check : Bool) : Bool × TbSendTracker :=
  let tracker := { tracker with
    pending := submitted.sequence
    calls := tracker.calls ++ [.request check tracker.status.draftId tracker.attempt
      (strncpy tbAccountIdSize tracker.status.target.account)
      (strncpy tbTelegramIdSize tracker.status.target.chat)
      (strncpy tbTelegramIdSize tracker.status.target.reply)] }
  (tracker.pending ≠ 0, tracker)

def applied (status : TbSendStatus) (record : TbSendStateRecord) : TbSendStatus :=
  { status with
    phase := phaseOf record.state
    code := record.code
    retryAfter := record.retryAfter
    flags := record.flags
    message := tbCopySpan tbTelegramIdSize record.message
    title := if record.title = [] then status.title else tbCopySpan tbSendTitleSize record.title
    preview := if record.preview = [] then status.preview
      else tbCopySpan tbSendPreviewSize record.preview }

def apply (record : TbSendStateRecord) : TbSendTracker :=
  let status := tracker.status
  if settled status.phase ∧ ¬ settled (phaseOf record.state) then tracker
  else
    let same := status.phase = phaseOf record.state ∧ status.code = record.code ∧
      status.flags = record.flags
    let tracker := { tracker with status := applied status record }
    if same then tracker else tracker.notify

def firstState (response : TbResponse) : Option TbSendStateRecord :=
  match tbCodecNext response.payload with
  | some (type, body, _) => if type = tbRecordSendState then tbCodecSendState body else none
  | none => none

/-- The record of a response that `completed` applies: one about the draft, of an answer that is
ok. -/
def answer (response : TbResponse) : Option TbSendStateRecord :=
  if response.outcome = .response ∧ response.result = tbResultOk then
    (firstState response).filter (·.draftId = tracker.status.draftId)
  else none

/-- The part of `completed` for a response without a record to apply: without an answer the
state becomes unknown, whatever it was; an error fails a draft that is not settled. -/
def unanswered (sequence : ℕ) (response : TbResponse) : TbSendTracker :=
  let tracker := { tracker with
    calls := tracker.calls ++ (if response.final then [] else [SendCall.cancel sequence]) }
  let error := tbErrorFromResponse response
  let status := tracker.status
  if error = tbErrorNoResponse ∨ error = tbErrorPhoneUnreachable then
    notify { tracker with status := { status with phase := .unknown, code := error } }
  else if settled status.phase = false then
    notify { tracker with status := { status with
      phase := .failed
      code := if error = tbResultOk then tbResultProtocolError else error
      flags := if error = tbResultBusy ∨ error = tbResultSendRateLimited then tbSendFlagRetryable
        else 0
      retryAfter := if 65535 < response.retryAfter then 65535 else response.retryAfter } }
  else tracker.notify

def completed (sequence : ℕ) (response : TbResponse) : TbSendTracker :=
  if sequence ≠ tracker.pending ∨ response.outcome = .cancelled then tracker
  else
    let tracker := { tracker with pending := 0 }
    match tracker.answer response with
    | some record => tracker.apply record
    | none => tracker.unanswered sequence response

def tbSendInit : TbSendTracker := {}

def tbSendBusy : Bool :=
  tracker.status.draftId ≠ 0 &&
    (tracker.status.phase = .submitting || tracker.status.phase = .pending)

/-- The part of `tb_send_start` that begins an attempt. -/
def begin (tracker : TbSendTracker) (target : TbSendTarget) (draftId : ℕ)
    (title preview : CString) : TbSendTracker :=
  let tracker := { tracker with status :=
    { draftId := draftId
      phase := .submitting
      target := target
      title := strncpy tbSendTitleSize title
      preview := strncpy tbSendPreviewSize preview } }
  match submit submitted tracker false with
  | (true, tracker) => tracker.notify
  | (false, tracker) =>
    notify { tracker with status := { tracker.status with
      phase := .failed
      code := tbErrorSubmitFailed submitted
      flags := tbSendFlagRetryable } }

/-- `tb_send_start`. A missing target is one without an account. -/
def tbSendStart (tracker : TbSendTracker) (target : TbSendTarget)
    (draftId : ℕ) (again : Bool) (title preview : CString) : Bool × TbSendTracker :=
  if draftId = 0 ∨ target.account = [] ∨ target.chat = [] then (false, tracker)
  else
    let sameDraft := decide (tracker.status.draftId = draftId)
    if tracker.tbSendBusy then (sameDraft && !again, tracker)
    else if sameDraft ∧ tracker.status.phase = .sent then (false, tracker)
    else if sameDraft ∧ again then
      if tracker.status.flags &&& tbSendFlagRetryable = 0 ∧ tracker.status.phase ≠ .unknown then
        (false, tracker)
      else
        (true, begin submitted { tracker with attempt := (tracker.attempt + 1) % 256 } target draftId
          title preview)
    else if sameDraft then (true, begin submitted tracker target draftId title preview)
    else (true, begin submitted { tracker with attempt := 0 } target draftId title preview)

def tbSendCheck (tracker : TbSendTracker) : Bool × TbSendTracker :=
  if tracker.status.draftId = 0 ∨ tracker.pending ≠ 0 ∨ settled tracker.status.phase then
    (false, tracker)
  else submit submitted tracker true

def tbSendRecord (record : TbSendStateRecord) (restored : Bool) :
    Bool × TbSendTracker :=
  if record.draftId = 0 then (false, tracker)
  else if record.draftId ≠ tracker.status.draftId then
    if restored = false ∨ tracker.tbSendBusy then (false, tracker)
    else
      let status : TbSendStatus :=
        { draftId := record.draftId
          restored := true
          target :=
            { account := tbCopySpan tbAccountIdSize record.account
              chat := tbCopySpan tbTelegramIdSize record.chat } }
      (true, apply { tracker with status := status, attempt := 0 } record)
  else if sameTarget tracker.status.target record = false then (false, tracker)
  else (true, tracker.apply record)

/-- The loop of `tb_send_payload`: every record takes bytes, so that their number is fuel
enough. -/
def payloadLoop : ℕ → TbSendTracker → TbCursor → Bool → Bool × TbSendTracker
  | 0, tracker, _, any => (any, tracker)
  | fuel + 1, tracker, cursor, any =>
    match tbCodecNext cursor with
    | none => (any, tracker)
    | some (type, body, rest) =>
      if type = tbRecordSendState ∨ type = tbRecordPendingSend then
        match tbCodecSendState body with
        | some record =>
          let taken := tracker.tbSendRecord record (type = tbRecordPendingSend)
          payloadLoop fuel taken.2 rest (taken.1 || any)
        | none => payloadLoop fuel tracker rest any
      else payloadLoop fuel tracker rest any

def tbSendPayload (payload : List UInt8) : Bool × TbSendTracker :=
  payloadLoop payload.length tracker payload false

def tbSendForget (draftId : ℕ) : TbSendTracker :=
  if tracker.status.draftId ≠ draftId ∨ tracker.tbSendBusy then tracker
  else { tracker with status := {} }

def tbSendClose : TbSendTracker :=
  if tracker.pending = 0 then tracker
  else { tracker with pending := 0, calls := tracker.calls ++ [.cancel tracker.pending] }

end TbSendTracker

/-- Everything that can happen to the tracker; a submission returns what the request layer
answers. -/
inductive SendEvent
  | start (submitted : Submitted) (target : TbSendTarget) (draftId : ℕ) (again : Bool)
      (title preview : CString)
  | check (submitted : Submitted)
  | record (record : TbSendStateRecord) (restored : Bool)
  | completed (sequence : ℕ) (response : TbResponse)
  | forget (draftId : ℕ)
  | close

namespace TbSendTracker

def step (tracker : TbSendTracker) : SendEvent → TbSendTracker
  | .start submitted target draftId again title preview =>
    (tracker.tbSendStart submitted target draftId again title preview).2
  | .check submitted => (tracker.tbSendCheck submitted).2
  | .record record restored => (tracker.tbSendRecord record restored).2
  | .completed sequence response => tracker.completed sequence response
  | .forget draftId => tracker.tbSendForget draftId
  | .close => tracker.tbSendClose

/-- The records of a payload that `tb_send_payload` hands on, as events. -/
def payloadEvents : ℕ → TbCursor → List SendEvent
  | 0, _ => []
  | fuel + 1, cursor =>
    match tbCodecNext cursor with
    | none => []
    | some (type, body, rest) =>
      if type = tbRecordSendState ∨ type = tbRecordPendingSend then
        match tbCodecSendState body with
        | some record => .record record (type = tbRecordPendingSend) :: payloadEvents fuel rest
        | none => payloadEvents fuel rest
      else payloadEvents fuel rest

theorem payloadLoop_eq_foldl (fuel : ℕ) :
    ∀ (tracker : TbSendTracker) (cursor : TbCursor) (any : Bool),
      (payloadLoop fuel tracker cursor any).2 = (payloadEvents fuel cursor).foldl step tracker := by
  induction fuel with
  | zero => intro tracker cursor any; rfl
  | succ fuel ih =>
    intro tracker cursor any
    rw [payloadLoop, payloadEvents]
    rcases tbCodecNext cursor with _ | ⟨type, body, rest⟩
    · rfl
    · simp only
      split_ifs
      · cases tbCodecSendState body with
        | some record | none => exact ih _ _ _
      · exact ih _ _ _

/-- **A payload is the sequence of its records**: runs of record events cover the pushes. -/
theorem tbSendPayload_eq_foldl (tracker : TbSendTracker) (payload : List UInt8) :
    (tracker.tbSendPayload payload).2 = (payloadEvents payload.length payload).foldl step tracker :=
  payloadLoop_eq_foldl _ _ _ _

section Sent

variable {tracker : TbSendTracker}

@[simp] theorem status_notify (tracker : TbSendTracker) : tracker.notify.status = tracker.status := rfl

@[simp] theorem status_submit (submitted : Submitted) (tracker : TbSendTracker) (check : Bool) :
    (submit submitted tracker check).2.status = tracker.status := rfl

theorem status_apply (tracker : TbSendTracker) (record : TbSendStateRecord) :
    (tracker.apply record).status =
      if settled tracker.status.phase ∧ ¬ settled (phaseOf record.state) then tracker.status
      else applied tracker.status record := by
  unfold apply
  simp only
  split_ifs <;> rfl

theorem draftId_apply (tracker : TbSendTracker) (record : TbSendStateRecord) :
    (tracker.apply record).status.draftId = tracker.status.draftId := by
  rw [status_apply]
  split_ifs <;> rfl

theorem phase_apply_of_sent (hsent : tracker.status.phase = .sent) (record : TbSendStateRecord) :
    (tracker.apply record).status.phase = .sent ↔ phaseOf record.state ≠ .failed := by
  rw [status_apply, hsent]
  unfold applied
  cases hphase : phaseOf record.state <;> simp [settled, hsent]

theorem draftId_unanswered (tracker : TbSendTracker) (sequence : ℕ) (response : TbResponse) :
    (tracker.unanswered sequence response).status.draftId = tracker.status.draftId := by
  unfold unanswered
  simp only
  split
  · rfl
  · split <;> rfl

theorem phase_unanswered_of_sent (hsent : tracker.status.phase = .sent) (sequence : ℕ)
    (response : TbResponse) :
    (tracker.unanswered sequence response).status.phase = .sent ↔
      tbErrorFromResponse response ≠ tbErrorNoResponse ∧
        tbErrorFromResponse response ≠ tbErrorPhoneUnreachable := by
  unfold unanswered
  simp only
  split
  · rename_i hlost
    refine iff_of_false (by simp) ?_
    rintro ⟨hanswer, hreached⟩
    exact hlost.elim hanswer hreached
  · rename_i hreached
    rw [not_or] at hreached
    refine iff_of_true ?_ hreached
    rw [hsent]
    exact hsent

theorem draftId_begin (submitted : Submitted) (tracker : TbSendTracker) (target : TbSendTarget)
    (draftId : ℕ) (title preview : CString) :
    (begin submitted tracker target draftId title preview).status.draftId = draftId := by
  unfold begin
  simp only
  rcases h : submit _ _ _ with ⟨_ | _, tracker'⟩ <;>
    · have hstatus := congrArg (fun t => t.2.status) h
      simp only [status_submit] at hstatus
      simp [← hstatus]

end Sent

end TbSendTracker

/-- **The events that do not overrule a sent draft**: its pending request does not end without
an answer, and no record about it says that it failed. -/
def KeepsSent (tracker : TbSendTracker) : SendEvent → Prop
  | .completed sequence response =>
    sequence = tracker.pending → response.outcome ≠ .cancelled →
      match tracker.answer response with
      | some record => phaseOf record.state ≠ .failed
      | none => tbErrorFromResponse response ≠ tbErrorNoResponse ∧
          tbErrorFromResponse response ≠ tbErrorPhoneUnreachable
  | .record record _ =>
    record.draftId = tracker.status.draftId → sameTarget tracker.status.target record = true →
      phaseOf record.state ≠ .failed
  | _ => True

namespace TbSendTracker

/-- **Exactly these events leave a sent draft sent**, as long as it is the one tracked. -/
theorem phase_step_iff {tracker : TbSendTracker} (hdraft : tracker.status.draftId ≠ 0)
    (hsent : tracker.status.phase = .sent) (event : SendEvent) :
    ((tracker.step event).status.draftId = tracker.status.draftId →
      (tracker.step event).status.phase = .sent) ↔ KeepsSent tracker event := by
  have hbusy : tracker.tbSendBusy = false := by simp [tbSendBusy, hsent]
  cases event with
  | start submitted target draftId again title preview =>
    refine iff_of_true (fun hsame => ?_) trivial
    simp only [step, tbSendStart, hbusy, hsent] at hsame ⊢
    by_cases hrefused : draftId = 0 ∨ target.account = [] ∨ target.chat = []
    · simp [hrefused, hsent]
    · by_cases hid : tracker.status.draftId = draftId
      · simp [hrefused, hid, hsent]
      · simp [hrefused, hid, draftId_begin] at hsame
        exact absurd hsame.symm hid
  | check submitted =>
    refine iff_of_true (fun _ => ?_) trivial
    simp [step, tbSendCheck, hsent, settled]
  | record record restored =>
    simp only [step, tbSendRecord, KeepsSent]
    by_cases hid : record.draftId = tracker.status.draftId
    · by_cases htarget : sameTarget tracker.status.target record = true
      · simp only [hid, hdraft, htarget, if_false, ne_eq, not_true_eq_false, Bool.true_eq_false,
          draftId_apply, phase_apply_of_sent hsent, forall_const]
      · simp [hid, hdraft, htarget, hsent]
    · refine iff_of_true (fun hsame => ?_) fun h => absurd h hid
      split_ifs at hsame ⊢
      · exact hsent
      · exact hsent
      · rw [draftId_apply] at hsame
        exact absurd hsame hid
  | completed sequence response =>
    simp only [step, completed, KeepsSent]
    by_cases hignored : sequence ≠ tracker.pending ∨ response.outcome = .cancelled
    · rw [if_pos hignored]
      refine iff_of_true (fun _ => hsent) fun hsequence houtcome => ?_
      rcases hignored with h | h
      · exact absurd hsequence h
      · exact absurd h houtcome
    · rw [if_neg hignored]
      rw [not_or, not_not] at hignored
      have hanswer : TbSendTracker.answer { tracker with pending := 0 } response =
          tracker.answer response := rfl
      rw [hanswer]
      cases tracker.answer response with
      | some record =>
        have hsent' : ({ tracker with pending := 0 } : TbSendTracker).status.phase = .sent := hsent
        simp only [hignored, draftId_apply, phase_apply_of_sent hsent', forall_const, ne_eq,
          not_false_eq_true]
      | none =>
        have hsent' : ({ tracker with pending := 0 } : TbSendTracker).status.phase = .sent := hsent
        simp only [hignored, draftId_unanswered, phase_unanswered_of_sent hsent', forall_const, ne_eq,
          not_false_eq_true]
  | forget draftId =>
    refine iff_of_true (fun hsame => ?_) trivial
    simp only [step, tbSendForget] at hsame ⊢
    split_ifs at hsame ⊢
    · exact hsent
    · exact absurd hsame.symm hdraft
  | close =>
    refine iff_of_true (fun _ => ?_) trivial
    simp only [step, tbSendClose]
    split_ifs <;> exact hsent

end TbSendTracker

/-- `step` as a relation. -/
def SendStep (tracker : TbSendTracker) (event : SendEvent) (tracker' : TbSendTracker) : Prop :=
  tracker.step event = tracker'

/-- **A sent draft stays sent**, in any run of events that do not overrule it, for as long as it
is the draft that is tracked. -/
theorem phase_of_run (draftId : ℕ) (tracker tracker' : TbSendTracker) (events : List SendEvent)
    (hdraft : draftId ≠ 0) (hid : tracker.status.draftId = draftId)
    (hsent : tracker.status.phase = .sent)
    (hrun : Run (Keeping (fun t => t.status.draftId = draftId) (Within KeepsSent SendStep))
      tracker events tracker') :
    tracker'.status.phase = .sent := by
  have hinv : tracker'.status.draftId = draftId ∧ tracker'.status.phase = .sent := by
    refine Run.invariant (fun t => t.status.draftId = draftId ∧ t.status.phase = .sent) ?_ hrun
      ⟨hid, hsent⟩
    rintro t event _ ⟨hid, hsent⟩ ⟨⟨hkeeps, rfl⟩, hsame⟩
    refine ⟨hsame, ?_⟩
    exact (TbSendTracker.phase_step_iff (hid ▸ hdraft) hsent event).mpr hkeeps (hsame.trans hid.symm)
  exact hinv.2

section Pushed

def pushedTarget : TbSendTarget := { account := [0x61], chat := [0x31] }

def pushedRecord (state : ℕ) : TbSendStateRecord :=
  ⟨7, state, 0, 0, 0, [0x61], [0x31], [], [], []⟩

/-- The draft 7 is submitted, and the phone pushes that it was sent before the request is
answered. -/
def pushedSent : TbSendTracker :=
  [.start ⟨1, .timeout⟩ pushedTarget 7 false [] [], .record (pushedRecord 1) false].foldl
    TbSendTracker.step TbSendTracker.tbSendInit

/-- The answer that comes after the push, and a push that says pending, leave the draft sent. -/
theorem phase_of_run_pushed :
    ((pushedSent.step (.completed 1 { outcome := .response, result := tbResultBusy })).step
      (.record (pushedRecord 0) false)).status.phase = .sent := by
  refine phase_of_run 7 pushedSent _
    [.completed 1 { outcome := .response, result := tbResultBusy }, .record (pushedRecord 0) false]
    (by decide) (by decide) (by decide) ?_
  have hanswer : pushedSent.answer { outcome := .response, result := tbResultBusy } = none := by
    decide
  exact ((Run.nil _).snoc ⟨⟨fun _ _ => by rw [hanswer]; decide, rfl⟩, by decide⟩).snoc
    ⟨⟨fun _ _ => by decide, rfl⟩, by decide⟩

/-- **A timeout overrules a sent draft**: the request that is still pending ends without an
answer, and the tracker offers the draft again. -/
theorem unknown_after_sent :
    pushedSent.status.draftId = 7 ∧ pushedSent.status.phase = .sent ∧
      let tracker := pushedSent.step (.completed 1 { outcome := .timeout })
      tracker.status.draftId = 7 ∧ tracker.status.phase = .unknown ∧
      (tracker.tbSendStart ⟨2, .timeout⟩ pushedTarget 7 true [] []).1 = true := by
  decide

end Pushed

end Watch
