import Mathlib.Data.PNat.Basic
import TeleBezel.Lib.Deadline
import TeleBezel.Watch.HistoryMessages

/-!
# The history view of the watch

`app/src/c/history.c`: the requests for pages and how they end, the top row, and the due times with
the timer of the view. What the request layer and the clock return is given with every call, and what
the view calls on the layer is kept in `calls`; a request that is cancelled calls back while none is
pending, and the call is ignored. That the window is told of a change, and what only the window reads
(`chat_type`, `saved`, `revision`), is left out.
-/

namespace Watch.HistoryView

open Word

inductive TbTop
  | more
  | loading
  | failed
  | waiting
  | start
  | unknown
deriving DecidableEq

inductive TbHistoryOp
  | none
  | first
  | refresh
  | older
deriving DecidableEq

/-- `TB_PAGE_OP_FIRST` and the like. -/
inductive PageOp
  | first
  | next
  | retry
  | recheck
  | refresh

structure TbHistory extends TbMessages where
  account : CString := []
  chat : CString := []
  top : TbTop := .more
  topOp : PageOp := .first
  op : TbHistoryOp := .none
  opPage : PageOp := .first
  pending : ℕ := 0
  loaded : Bool := false
  connectionNotReady : Bool := false
  active : Bool := false
  refreshingSilently : Bool := false
  resynced : Bool := false
  error : ℤ := tbErrorNone
  topError : ℤ := tbErrorNone
  refreshError : ℤ := tbErrorNone
  retryAfter : ℕ := 0
  followups : ℕ := 0
  followupChain : Bool := false
  rechecks : ℕ := 0
  followupDue : ℕ := 0
  recheckDue : ℕ := 0
  periodicDue : ℕ := 0
  refreshedAt : ℕ := 0
  /-- The timer of the view, when it is armed: the reading of the clock then, and the delay. -/
  timer : Option (ℕ × ℕ) := .none
  /-- What the items and the budget were when the last request was submitted. -/
  start : List TbMessage × ℕ := ([], 0)
  /-- What the view has called on the request layer. -/
  calls : List (RequestCall Unit) := []

inductive Reading
  /-- Before the due times or the age of the page are looked at. -/
  | checked
  | followup
  | recheck
  | periodic
  | refreshed
  | armed

structure Env where
  submitted : Submitted
  now : Reading → ℕ
  /-- Whether an allocation for a string of a record of the payload succeeds. -/
  malloc : ℕ → StringField → Bool

/-- `TB_FLAG_HAS_MORE` and the like. -/
def tbFlagHasMore : ℕ := 1

@[inherit_doc tbFlagHasMore] def tbFlagPartial : ℕ := 4

@[inherit_doc tbFlagHasMore] def tbFlagLocalExhausted : ℕ := 8

@[inherit_doc tbFlagHasMore] def tbFlagRefreshPending : ℕ := 16

@[inherit_doc tbFlagHasMore] def tbFlagConnectionNotReady : ℕ := 32

/-- `TB_RESULT_CURSOR_LOST`, `TB_RESULT_CHAT_NOT_FOUND` and `TB_ERROR_OUT_OF_MEMORY`. -/
def tbResultCursorLost : ℤ := 12

@[inherit_doc tbResultCursorLost] def tbResultChatNotFound : ℤ := 9

@[inherit_doc tbResultCursorLost] def tbErrorOutOfMemory : ℤ := 102

def tbErrorIsConnectionLevel (error : ℤ) : Bool :=
  error = 1 || error = 2 || error = 4 || error = 15

def tbErrorIsAccountLevel (error : ℤ) : Bool := error = 7 || error = 8

def tbBusyPostpone : ℕ := 1000

def due (time current : ℕ) : Bool := time ≠ 0 && Deadline.passed current time

/-- `at`. -/
def atDelay (now delay : ℕ) : ℕ :=
  let value := uint32 (now + delay : ℕ)
  if value = 0 then 1 else value

namespace TbHistory

variable (config : TbHistoryConfig) (env : Env) (history : TbHistory)

def dues : List ℕ :=
  [history.followupDue, history.recheckDue, history.periodicDue]

def arm : TbHistory :=
  { history with
    timer := (Deadline.delay (env.now .armed) (history.dues.filter (· ≠ 0))).map fun delay =>
      (env.now .armed, delay) }

def schedulePeriodic : TbHistory :=
  { history with
    periodicDue :=
      if history.active ∧ history.loaded ∧ ¬ history.truncated ∧ config.refreshInterval ≠ 0 then
        atDelay (env.now .periodic) config.refreshInterval
      else 0 }

def clearStaging : TbHistory :=
  { history with toTbMessages := history.toTbMessages.clearStaging }

def clearItems : TbHistory :=
  { history with toTbMessages := history.toTbMessages.clearItems }

def refused (op : TbHistoryOp) : TbHistory :=
  let error := tbErrorSubmitFailed env.submitted
  if ¬ history.loaded then { history with op := .none, error }
  else if op = .older then { history with op := .none, top := .failed, topError := error }
  else { history with op := .none, refreshError := error }

/-- `submit`. A request that is pending is cancelled. -/
def submit (op : TbHistoryOp) (page : PageOp) (silent : Bool) : TbHistory :=
  let history := history.clearStaging
  let history := { history with
    op
    opPage := page
    refreshingSilently := silent
    top := if op = .older then .loading else history.top
    error := if op = .first then tbErrorNone else history.error
    pending := env.submitted.sequence
    start := (history.items, history.used)
    calls := history.calls ++ cancelled history.pending ++ [.submit ()] }
  if env.submitted.sequence = 0 then history.refused env op else history

def topOf (flags : ℕ) (older : Bool) : TbHistory :=
  let waiting := flags &&& tbFlagRefreshPending ≠ 0
  if flags &&& tbFlagPartial ≠ 0 then
    { history with
      topError := tbErrorNone
      topOp := if older then .retry else .refresh
      top := if waiting then .waiting else .failed }
  else if flags &&& tbFlagLocalExhausted ≠ 0 then
    { history with
      topError := tbErrorNone
      topOp := if older then .recheck else .refresh
      top := if waiting then .waiting else .start }
  else
    { history with
      topError := tbErrorNone
      topOp := if older then .recheck else .refresh
      top := .unknown }

def setTopFrom (flags : ℕ) (older : Bool) : TbHistory :=
  if flags &&& tbFlagHasMore ≠ 0 then
    { history with
      topError := tbErrorNone
      top := .more
      topOp := .next
      rechecks := 0
      recheckDue := 0 }
  else
    let history := history.topOf flags older
    if history.top = .waiting ∧ older then
      if h : history.rechecks < 2 then
        { history with
          recheckDue := atDelay (env.now .recheck) (config.followupDelays ⟨history.rechecks, h⟩)
          rechecks := history.rechecks + 1 }
      else { history with top := if flags &&& tbFlagPartial ≠ 0 then .failed else .start }
    else history

def mergeNewest (flags : ℕ) (first : Bool) : TbHistory :=
  let merged := { history with toTbMessages := history.toTbMessages.mergeNewest config first }
  if first ∨ history.items = [] then merged.setTopFrom config env flags false else merged

def finishNewest (flags : ℕ) (first : Bool) : TbHistory :=
  let history := history.mergeNewest config env flags first
  let history := { history with
    loaded := true
    refreshedAt := env.now .refreshed
    refreshError := tbErrorNone }
  let history :=
    if h : flags &&& tbFlagRefreshPending ≠ 0 ∧ history.followupChain ∧ history.followups < 2 then
      { history with
        followupDue := atDelay (env.now .followup) (config.followupDelays ⟨history.followups, h.2.2⟩)
        followups := history.followups + 1 }
    else { history with followupDue := 0, followupChain := false }
  history.schedulePeriodic config env

/-- `evict_newest` and `merge_albums`. -/
def settle : TbHistory :=
  { history with toTbMessages := (history.toTbMessages.evictNewest config).mergeAlbums }

def finish (flags : ℕ) : TbHistory :=
  let op := history.op
  let history := { history with
    toTbMessages := history.toTbMessages.sortStaging
    pending := 0
    op := .none
    error := tbErrorNone
    resynced := false
    connectionNotReady := flags &&& tbFlagConnectionNotReady ≠ 0 }
  let history := match op with
    | .older =>
      { history with toTbMessages := history.toTbMessages.prependStaging config }.setTopFrom
        config env flags true
    | _ => history.finishNewest config env flags (decide (op = TbHistoryOp.first))
  let history := history.settle config
  (if history.truncated then { history with periodicDue := 0 } else history).arm env

/-- `fail`, where it is not the first loss of a cursor. -/
def failed (op : TbHistoryOp) (error : ℤ) : TbHistory :=
  let history :=
    if ¬ history.loaded ∨ tbErrorIsAccountLevel error ∨ tbErrorIsConnectionLevel error ∨
        error = tbResultChatNotFound then { history with error }
    else if op = .older then { history with top := .failed, topError := error }
    else { history with refreshError := error }
  let history := if history.loaded ∧ history.top = .loading then
      { history with top := .failed, topError := error }
    else history
  let history := if history.loaded ∧ (error = tbResultCursorLost ∨ op = .first) ∧
      history.top = .failed then { history with topOp := .first }
    else history
  (history.schedulePeriodic config env).arm env

def fail (error : ℤ) (retryAfter : ℕ) : TbHistory :=
  let op := history.op
  let history : TbHistory := { history.clearStaging with pending := 0, op := .none, retryAfter }
  if error = tbResultCursorLost ∧ ¬ history.resynced then
    { history with resynced := true, followups := 0, followupChain := true, rechecks := 0 }.submit env
      .first .first history.loaded
  else history.failed config env op error

/-- `parse`: the view with the records that were staged, and whether the payload was well formed. -/
def parse (payload : List UInt8) : TbHistory × Bool :=
  let (messages, ok) := history.toTbMessages.parse config env.malloc payload
  ({ history with toTbMessages := messages }, ok)

def abandon (sequence : ℕ) (response : TbResponse) : TbHistory :=
  { history with calls := history.calls ++ abandoned sequence response }

def completed (sequence : ℕ) (response : TbResponse) (flags : ℕ) : TbHistory :=
  if sequence ≠ history.pending ∨ response.outcome = .cancelled then history
  else if response.outcome ≠ .response ∨ response.result ≠ tbResultOk then
    (history.abandon sequence response).fail config env (tbErrorFromResponse response)
      response.retryAfter
  else
    let (history, ok) := history.parse config env response.payload
    if ¬ ok then (history.abandon sequence response).fail config env tbResultProtocolError 0
    else if ¬ response.final then history
    else if history.stagingInvalid then history.clearStaging.fail config env tbErrorOutOfMemory 0
    else history.finish config env flags

/-- `tb_history_close`. -/
def close : TbHistory :=
  { history.clearStaging with
    pending := 0
    op := .none
    active := false
    followupDue := 0
    recheckDue := 0
    periodicDue := 0
    timer := .none
    calls := history.calls ++ cancelled history.pending }

/-- `tb_history_is`. -/
def isOf (account chat : CString) : Bool :=
  history.loaded && history.account = account && history.chat = chat

/-- `tb_history_open`. -/
def «open» (account chat : CString) : TbHistory :=
  let same := history.isOf account chat && !history.truncated
  let history := { history.close with
    active := true
    followups := 0
    followupChain := true
    rechecks := 0
    resynced := false
    retryAfter := 0 }
  if same then history.submit env .first .first true
  else
    { history.clearItems with
      account := strncpy tbAccountIdSize account
      chat := strncpy tbTelegramIdSize chat
      loaded := false
      truncated := false
      top := .loading
      error := tbErrorNone
      topError := tbErrorNone
      refreshError := tbErrorNone }.submit env .first .first false

/-- `tb_history_load_older`. -/
def loadOlder : TbHistory :=
  if ¬ history.loaded ∨ history.op ≠ .none then history
  else match history.top with
    | .loading => history
    | .more => history.submit env .older .next false
    | .failed | .waiting | .start | .unknown =>
      let history := { history with recheckDue := 0 }
      match history.topOp with
      | .first =>
        { history with resynced := false, followups := 0, followupChain := true }.submit env
          .first .first true
      | .refresh =>
        { history with followups := 0, followupChain := true }.submit env .refresh .refresh false
      | page =>
        (if history.top ≠ .waiting then { history with rechecks := 0 } else history).submit env
          .older page false

/-- `tb_history_refresh`. -/
def refresh : TbHistory :=
  if history.op ≠ .none ∨ history.account = [] then history
  else
    let history := { history with followups := 0, followupChain := true }
    if ¬ history.loaded ∨ history.truncated then
      { history with resynced := false }.submit env .first .first history.loaded
    else history.submit env .refresh .refresh false

/-- `tb_history_retry`. -/
def retry : TbHistory :=
  if history.op ≠ .none ∨ history.account = [] then history
  else if ¬ history.loaded then
    { history with
      error := tbErrorNone
      resynced := false
      followups := 0
      followupChain := true }.submit env .first .first false
  else if history.top = .failed then history.loadOlder env
  else history.refresh env

/-- `tb_history_set_active`. -/
def setActive (active : Bool) : TbHistory :=
  if history.account = [] then history
  else
    let history := { history with active }
    if ¬ active then { history with periodicDue := 0, followupDue := 0 }.arm env
    else if history.loaded ∧ history.op = .none ∧ ¬ history.truncated ∧
        config.refreshInterval ≤ uint32 ((env.now .checked : ℤ) - history.refreshedAt) then
      history.refresh env
    else (history.schedulePeriodic config env).arm env

/-- `tb_history_timer`, when the timer has run out. -/
def timerRan : TbHistory :=
  let history := { history with timer := .none }
  let followup := due history.followupDue (env.now .checked)
  let periodic := due history.periodicDue (env.now .checked)
  let recheck := due history.recheckDue (env.now .checked)
  if ¬ followup ∧ ¬ periodic ∧ ¬ recheck then history.arm env
  else if history.op ≠ .none then
    { history with
      followupDue := if followup then atDelay (env.now .followup) tbBusyPostpone
        else history.followupDue
      periodicDue := if periodic then atDelay (env.now .periodic) tbBusyPostpone
        else history.periodicDue
      recheckDue := if recheck then atDelay (env.now .recheck) tbBusyPostpone
        else history.recheckDue }.arm env
  else if recheck then { history with recheckDue := 0 }.submit env .older history.topOp false
  else
    let history := { history with followupDue := 0, periodicDue := 0 }
    let history := if periodic ∧ ¬ followup then { history with followups := 0, followupChain := false }
      else history
    if ¬ history.active then history.arm env else history.submit env .refresh .refresh true

end TbHistory

inductive Event
  | open (account chat : CString)
  | close
  | loadOlder
  | refresh
  | retry
  | setActive (active : Bool)
  | timer
  /-- The request layer calls back; a sequence is not zero. -/
  | response (sequence : ℕ+) (response : TbResponse) (flags : ℕ)

def step (config : TbHistoryConfig) (history : TbHistory) : Event × Env → TbHistory
  | (.open account chat, env) => history.open env account chat
  | (.close, _) => history.close
  | (.loadOlder, env) => history.loadOlder env
  | (.refresh, env) => history.refresh env
  | (.retry, env) => history.retry env
  | (.setActive active, env) => history.setActive config env active
  | (.timer, env) => history.timerRan env
  | (.response sequence response flags, env) => history.completed config env sequence response flags

/-! ### Samples -/

def bareMessage (id : List UInt8) : List UInt8 :=
  [4, .ofNat (25 + id.length), 0, .ofNat id.length] ++ id ++ List.replicate 24 0

/-- The configuration of the watch, and what the calls return when they go well. -/
def sampleConfig : TbHistoryConfig :=
  ⟨60, 20, 360, 12288, 60000, fun index => if index = 0 then 3000 else 8000⟩

@[inherit_doc sampleConfig]
def sampleEnv (sequence : ℕ) : Env := ⟨⟨sequence, .timeout⟩, fun _ => 1, fun _ _ => true⟩

/-! No sequence of the runs below is zero. -/

theorem neZero_one : NeZero 1 := ⟨one_ne_zero⟩

theorem neZero_two : NeZero 2 := ⟨two_ne_zero⟩

theorem neZero_three : NeZero 3 := ⟨three_ne_zero⟩

attribute [local instance] neZero_one in
/-- A chat is opened, its first page arrives with the message 10, and an older page is asked for. -/
def olderAsked : List (Event × Env) :=
  [(.open [0x61] [0x31], sampleEnv 1),
    (.response 1 { outcome := .response, payload := bareMessage [0x31, 0x30] } tbFlagHasMore,
      sampleEnv 2),
    (.loadOlder, sampleEnv 2)]

end Watch.HistoryView
