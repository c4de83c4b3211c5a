import TeleBezel.Watch.HistoryView

/-!
# The chat list of the watch

`app/src/c/chats.c`: the list of chats, which grows page by page within its capacity and the budget of
its strings, the requests for its pages and how they end, and the timer that refreshes it. What the
request layer and the clock return, and which allocations succeed, is given with every call, and what
the list calls on the layer is kept in `calls`; a request that is cancelled calls back with an outcome
that is ignored. That the window is told of a change is left out.
-/

namespace Watch.ChatsView

open Word HistoryView

/-! ### Chats -/

structure TbChatRecord where
  id : List UInt8
  title : List UInt8
  type : ℕ
  flags : ℕ
  unread : ℕ
  lastDate : ℕ
  previewKind : ℕ
  previewAction : ℕ
  previewDuration : ℕ
  previewSender : List UInt8
  previewExtra : List UInt8
  previewText : List UInt8
  send : ℕ

/-- `TB_RECORD_CHAT` and `TB_RECORD_SUMMARY`. -/
def tbRecordChat : ℕ := 3

@[inherit_doc tbRecordChat] def tbRecordSummary : ℕ := 6

def tbCodecChat (body : TbCursor) : Option TbChatRecord :=
  match tbCodecDecode body (tbLayout tbRecordChat) with
  | some [.span id, .span title, .number type, .number flags, .number unread, .number lastDate,
      .number previewKind, .number previewAction, .number previewDuration, .span previewSender,
      .span previewExtra, .span previewText, .number send] =>
    some ⟨id, title, type, flags, unread, lastDate, previewKind, previewAction, previewDuration,
      previewSender, previewExtra, previewText, send⟩
  | _ => none

structure TbSummaryRecord where
  connection : ℕ
  proxy : ℕ
  unreadChats : ℕ
  unreadMessages : ℕ

def tbCodecSummary (body : TbCursor) : Option TbSummaryRecord :=
  match tbCodecDecode body (tbLayout tbRecordSummary) with
  | some [.number connection, .number proxy, .number unreadChats, .number unreadMessages] =>
    some ⟨connection, proxy, unreadChats, unreadMessages⟩
  | _ => none

/-- The strings of a chat, in the order of `free_item`. -/
inductive ChatString
  | title
  | sender
  | extra
  | preview
deriving DecidableEq

@[inherit_doc ChatString] def ChatString.all : List ChatString := [.title, .sender, .extra, .preview]

structure TbChat where
  id : CString
  strings : ChatString → Option (List UInt8)
  type : ℕ
  flags : ℕ
  previewKind : ℕ
  previewAction : ℕ
  send : ℕ
  previewDuration : ℕ
  unread : ℕ
  lastDate : ℕ

inductive TbChatsLoad
  | idle
  | first
  | more
  | refresh
deriving DecidableEq

inductive TbChatsTail
  | more
  | unknown
  | «end»
  | full
  | failed
deriving DecidableEq

/-- `TbChatsConfig`, as far as the list reads it. -/
structure TbChatsConfig where
  capacity : ℕ
  textLimit : ℕ
  textBudget : ℕ
  refreshInterval : ℕ
  staleAfter : ℕ

structure TbChats where
  account : CString := []
  list : ℕ := 0
  items : List TbChat := []
  used : ℕ := 0
  load : TbChatsLoad := .idle
  pending : ℕ := 0
  tail : TbChatsTail := .more
  error : ℤ := tbErrorNone
  retryAfter : ℕ := 0
  connectionNotReady : Bool := false
  connection : ℕ := 0
  proxy : Bool := false
  unreadChats : ℕ := 0
  unreadMessages : ℕ := 0
  loaded : Bool := false
  active : Bool := false
  resynced : Bool := false
  loadedAt : ℕ := 0
  refreshDue : ℕ := 0
  /-- The timer of the list, when it is armed: the reading of the clock then, and the delay. -/
  timer : Option (ℕ × ℕ) := none
  /-- What the list has called on the request layer. -/
  calls : List (RequestCall Unit) := []

inductive Reading
  /-- Before the age of the list is looked at. -/
  | checked
  | loaded
  | armed

structure Env where
  submitted : Submitted
  now : Reading → ℕ
  /-- Whether an allocation for a string of a record of the payload succeeds. -/
  malloc : ℕ → ChatString → Bool

def tbFlagHasMoreUnknown : ℕ := 2

/-- `TB_LIST_MAIN` and `TB_LIST_ARCHIVE`. -/
def tbListMain : ℕ := 0

@[inherit_doc tbListMain] def tbListArchive : ℕ := 1

def tbTitleLimit : ℕ := 64

/-- `tb_budget_copy`, when it is not forced: the copy, and what the budget is then. -/
def tbBudgetCopy (limit used : ℕ) (value : List UInt8) (maxLength : ℕ) (allocated : Bool) :
    Option (List UInt8) × ℕ :=
  if value.length = 0 then (none, used)
  else
    let size := tbUtf8Fit value (maxLength + 1)
    if size = 0 ∨ limit < used + size + 1 ∨ allocated = false then (none, used)
    else (some (value.take size), used + size + 1)

/-- `free_item`, as far as it is about the budget. -/
def freeItem (used : ℕ) (item : TbChat) : ℕ :=
  ChatString.all.foldl (fun used field => tbBudgetFree used (item.strings field)) used

/-- The chat that `append` makes of a record, and what the budget is then. -/
def chatOf (config : TbChatsConfig) (malloc : ChatString → Bool) (used : ℕ) (record : TbChatRecord)
    (id : CString) : TbChat × ℕ :=
  let (title, used) := tbBudgetCopy config.textBudget used record.title tbTitleLimit (malloc .title)
  let (sender, used) :=
    tbBudgetCopy config.textBudget used record.previewSender tbSenderLimit (malloc .sender)
  let (extra, used) :=
    tbBudgetCopy config.textBudget used record.previewExtra tbExtraLimit (malloc .extra)
  let (preview, used) :=
    tbBudgetCopy config.textBudget used record.previewText config.textLimit (malloc .preview)
  ({ id := id
     strings := fun
      | .title => title
      | .sender => sender
      | .extra => extra
      | .preview => preview
     type := record.type
     flags := record.flags
     previewKind := record.previewKind
     previewAction := record.previewAction
     send := record.send
     previewDuration := record.previewDuration
     unread := record.unread
     lastDate := record.lastDate }, used)

namespace TbChats

variable (config : TbChatsConfig) (env : Env) (chats : TbChats)

def clear : TbChats :=
  { chats with items := [], used := chats.items.foldl freeItem chats.used }

def schedule : TbChats :=
  if ¬ chats.active ∨ ¬ chats.loaded ∨ config.refreshInterval = 0 then
    { chats with refreshDue := 0, timer := none }
  else
    { chats with
      refreshDue := uint32 (env.now .armed + config.refreshInterval : ℕ)
      timer := some (env.now .armed, config.refreshInterval) }

/-- `request`. A request that is pending is cancelled. -/
def request (load : TbChatsLoad) : TbChats :=
  let chats : TbChats :=
    { chats with calls := chats.calls ++ cancelled chats.pending ++ [.submit ()] }
  if env.submitted.sequence = 0 then
    { chats with load := .idle, error := tbErrorSubmitFailed env.submitted, pending := 0 }
  else { chats with load, error := tbErrorNone, pending := env.submitted.sequence }

/-- `append`, or none where it returns false. -/
def append (malloc : ChatString → Bool) (chats : TbChats) (record : TbChatRecord) : Option TbChats :=
  if config.capacity ≤ chats.items.length then some { chats with tail := .full }
  else
    match tbCopyId [] tbTelegramIdSize record.id true with
    | (false, _) => none
    | (true, id) =>
      if chats.items.any (fun item => item.id = id) then some chats
      else
        let (item, used) := chatOf config malloc chats.used record id
        if (record.title.length ≠ 0 ∧ item.strings .title = none) ∨
            (record.previewText.length ≠ 0 ∧ item.strings .preview = none) then
          some { chats with used := freeItem used item, tail := .full }
        else some { chats with items := chats.items ++ [item], used }

/-- The loop of `parse`, at a record of the payload; a record takes bytes, so that their number is
fuel enough. -/
def parseLoop (malloc : ℕ → ChatString → Bool) : ℕ → ℕ → TbCursor → TbChats → TbChats × Bool
  | _, _, [], chats => (chats, true)
  | 0, _, _ :: _, chats => (chats, false)
  | fuel + 1, index, cursor@(_ :: _), chats =>
    match tbCodecNext cursor with
    | none => (chats, false)
    | some (type, body, cursor) =>
      if type = tbRecordSummary then
        match tbCodecSummary body with
        | none => (chats, false)
        | some summary =>
          parseLoop malloc fuel (index + 1) cursor { chats with
            connection := summary.connection
            proxy := summary.proxy ≠ 0
            unreadChats := summary.unreadChats
            unreadMessages := summary.unreadMessages }
      else
        match tbCodecChat body with
        | none => (chats, false)
        | some record =>
          if type ≠ tbRecordChat then (chats, false)
          else if chats.tail = .full then parseLoop malloc fuel (index + 1) cursor chats
          else
            match chats.append config (malloc index) record with
            | none => (chats, false)
            | some chats => parseLoop malloc fuel (index + 1) cursor chats

def parse (payload : List UInt8) : TbChats × Bool :=
  parseLoop config env.malloc payload.length 0 payload chats

def tailFrom (flags : ℕ) : TbChatsTail :=
  if flags &&& tbFlagHasMore ≠ 0 then .more
  else if flags &&& tbFlagPartial ≠ 0 then .failed
  else if flags &&& tbFlagHasMoreUnknown ≠ 0 then .unknown
  else .end

def fail (error : ℤ) (retryAfter : ℕ) : TbChats :=
  let load := chats.load
  let chats := { chats with pending := 0, load := .idle }
  if error = tbResultCursorLost ∧ ¬ chats.resynced then
    { chats with resynced := true }.request env .refresh
  else
    { chats with
      error
      retryAfter
      tail := if load = TbChatsLoad.more then .failed else chats.tail }.schedule config env

/-- What `completed` does before the first chunk. -/
def begun (flags : ℕ) : TbChats :=
  let chats :=
    if chats.load ≠ .more then { chats.clear with tail := .unknown }
    else if chats.tail = .failed then { chats with tail := .unknown }
    else chats
  let chats := if chats.tail = .full ∧ chats.items.length < config.capacity then
      { chats with tail := .unknown }
    else chats
  { chats with connectionNotReady := flags &&& tbFlagConnectionNotReady ≠ 0 }

/-- What `completed` does after the last chunk. -/
def finish (flags : ℕ) : TbChats :=
  { chats with
    pending := 0
    load := .idle
    error := tbErrorNone
    resynced := false
    tail := if chats.tail ≠ TbChatsTail.full then tailFrom flags else chats.tail
    loaded := true
    loadedAt := env.now .loaded }.schedule config env

def abandon (sequence : ℕ) (response : TbResponse) : TbChats :=
  { chats with calls := chats.calls ++ abandoned sequence response }

def completed (sequence : ℕ) (response : TbResponse) (flags : ℕ) : TbChats :=
  if sequence ≠ chats.pending ∨ response.outcome = .cancelled then chats
  else if response.outcome ≠ .response ∨ response.result ≠ tbResultOk then
    (chats.abandon sequence response).fail config env (tbErrorFromResponse response)
      response.retryAfter
  else
    let chats := if response.index = 0 then chats.begun config flags else chats
    let (chats, ok) := chats.parse config env response.payload
    if ¬ ok then (chats.abandon sequence response).fail config env tbResultProtocolError 0
    else if ¬ response.final then chats
    else chats.finish config env flags

/-- `tb_chats_close`. -/
def close : TbChats :=
  { chats.clear with
    pending := 0
    account := []
    load := .idle
    tail := .unknown
    error := tbErrorNone
    retryAfter := 0
    loaded := false
    active := false
    resynced := false
    connectionNotReady := false
    connection := 0
    proxy := false
    unreadChats := 0
    unreadMessages := 0
    refreshDue := 0
    timer := none
    calls := chats.calls ++ cancelled chats.pending }

/-- `tb_chats_open`. -/
def «open» (account : CString) (list : ℕ) : TbChats :=
  { chats.close with
    account := strncpy tbAccountIdSize account
    list := if list = tbListArchive then tbListArchive else tbListMain
    active := true }.request env .first

/-- `tb_chats_set_list`. -/
def setList (list : ℕ) : TbChats := chats.open env chats.account list

/-- `tb_chats_load_more`. -/
def loadMore : TbChats :=
  if chats.load ≠ .idle ∨ ¬ chats.loaded then chats
  else match chats.tail with
    | .more | .failed => chats.request env .more
    | .unknown => chats.request env .refresh
    | .end | .full => chats

/-- `tb_chats_refresh`. -/
def refresh : TbChats :=
  if chats.load ≠ .idle then chats
  else chats.request env (if chats.loaded then .refresh else .first)

/-- `tb_chats_retry`. -/
def retry : TbChats :=
  if chats.load ≠ .idle then chats
  else if chats.tail = .failed ∧ chats.loaded then chats.loadMore env
  else chats.refresh env

/-- `tb_chats_set_active`. -/
def setActive (active : Bool) : TbChats :=
  if chats.account = [] then chats
  else
    let chats := { chats with active }
    if ¬ active then { chats with refreshDue := 0, timer := none }
    else if 0 < config.staleAfter ∧ chats.loaded ∧ chats.load = .idle ∧
        config.staleAfter ≤ uint32 ((env.now .checked : ℤ) - chats.loadedAt) then chats.refresh env
    else chats.schedule config env

/-- `tb_chats_timer`, when the timer has run out. -/
def timerRan : TbChats :=
  let chats := { chats with refreshDue := 0, timer := none }
  if ¬ chats.active then chats
  else if chats.load ≠ .idle then chats.schedule config env
  else chats.refresh env

end TbChats

inductive Event
  | open (account : CString) (list : ℕ)
  | setList (list : ℕ)
  | close
  | loadMore
  | refresh
  | retry
  | setActive (active : Bool)
  | timer
  /-- The request layer calls back; a sequence is not zero. -/
  | response (sequence : ℕ+) (response : TbResponse) (flags : ℕ)

def step (config : TbChatsConfig) (chats : TbChats) : Event × Env → TbChats
  | (.open account list, env) => chats.open env account list
  | (.setList list, env) => chats.setList env list
  | (.close, _) => chats.close
  | (.loadMore, env) => chats.loadMore env
  | (.refresh, env) => chats.refresh env
  | (.retry, env) => chats.retry env
  | (.setActive active, env) => chats.setActive config env active
  | (.timer, env) => chats.timerRan config env
  | (.response sequence response flags, env) => chats.completed config env sequence response flags

end Watch.ChatsView
