import Mathlib.Data.List.DropRight
import TeleBezel.Watch.Requests

/-!
# The messages of the history view

The items of `app/src/c/history.c`, the page that is staged chunk by chunk, and the bytes that their
strings take of the budget. A page is merged at the end or at the front of the items, what finds no
place is dropped at the end, and members of an album become one item. Which allocations succeed is
given with the page.
-/

namespace Watch.HistoryView

structure TbMessageRecord where
  id : List UInt8
  date : ℕ
  flags : ℕ
  kind : ℕ
  action : ℕ
  duration : ℕ
  sender : List UInt8
  extra : List UInt8
  text : List UInt8
  replyId : List UInt8
  replySender : List UInt8
  replyText : List UInt8
  forward : List UInt8
  media : ℕ
  album : ℕ
  mediaCount : ℕ
  signature : List UInt8

def tbRecordMessage : ℕ := 4

def tbCodecMessage (body : TbCursor) : Option TbMessageRecord :=
  match tbCodecDecode body (tbLayout tbRecordMessage) with
  | some [.span id, .number date, .number flags, .number kind, .number action, .number duration,
      .span sender, .span extra, .span text, .span replyId, .span replySender, .span replyText,
      .span forward, .number media, .number album, .number mediaCount, .span signature] =>
    some ⟨id, date, flags, kind, action, duration, sender, extra, text, replyId, replySender,
      replyText, forward, media, album, mediaCount, signature⟩
  | _ => none

inductive StringField
  | sender
  | signature
  | forward
  | extra
  | text
  | reply
  | replyId
  | replySender
deriving DecidableEq

/-- In the order of `free_message`. -/
def StringField.all : List StringField :=
  [.sender, .signature, .forward, .extra, .text, .reply, .replyId, .replySender]

/-- `TbMessage`. A string is the bytes that were copied, or none. -/
structure TbMessage where
  id : CString
  key : ℤ
  date : ℕ
  flags : ℕ
  kind : ℕ
  action : ℕ
  duration : ℕ
  media : ℕ
  mediaCount : ℕ
  album : ℕ
  strings : StringField → Option (List UInt8)
  height : ℤ := -1

/-- `TbHistoryConfig`, as far as the view reads it. -/
structure TbHistoryConfig where
  capacity : ℕ
  pageLimit : ℕ
  textLimit : ℕ
  textBudget : ℕ
  refreshInterval : ℕ
  followupDelays : Fin 2 → ℕ

/-- The messages of a view: those that are shown, those of a page that is not complete, and the bytes
that their strings take. -/
structure TbMessages where
  items : List TbMessage := []
  staging : List TbMessage := []
  stagingInvalid : Bool := false
  used : ℕ := 0
  truncated : Bool := false

def strlen (value : List UInt8) : ℕ := (cString value).length

def tbBudgetFree (used : ℕ) : Option (List UInt8) → ℕ
  | none => used
  | some value => if strlen value + 1 < used then used - (strlen value + 1) else 0

/-- `free_message`, as far as it is about the budget. -/
def freeMessage (used : ℕ) (item : TbMessage) : ℕ :=
  StringField.all.foldl (fun used field => tbBudgetFree used (item.strings field)) used

/-- What `tb_budget_copy` copies, when it is forced to. -/
def tbBudgetCopy (value : List UInt8) (maxLength : ℕ) (allocated : Bool) : Option (List UInt8) :=
  if value.length = 0 then none
  else
    let size := tbUtf8Fit value (maxLength + 1)
    if size = 0 ∨ allocated = false then none else some (value.take size)

def taken : Option (List UInt8) → ℕ
  | none => 0
  | some value => value.length + 1

def TbMessage.taken (item : TbMessage) : ℕ :=
  (StringField.all.map fun field => HistoryView.taken (item.strings field)).sum

/-- `TB_SENDER_LIMIT`, `TB_EXTRA_LIMIT`, `TB_FORWARD_LIMIT` and `TB_REPLY_LIMIT`. -/
def tbSenderLimit : ℕ := 32

@[inherit_doc tbSenderLimit] def tbExtraLimit : ℕ := 48

@[inherit_doc tbSenderLimit] def tbForwardLimit : ℕ := 48

@[inherit_doc tbSenderLimit] def tbReplyLimit : ℕ := 96

/-- The line that `stage` makes of what a message replies to. -/
def quote (record : TbMessageRecord) : List UInt8 :=
  let sender := record.replySender.take (tbUtf8Fit record.replySender 33)
  let lead := if sender.length ≠ 0 ∧ record.replyText.length ≠ 0 ∧
      sender.length + 2 < tbReplyLimit then sender ++ [0x3A, 0x20] else sender
  lead ++ record.replyText.take (tbUtf8Fit record.replyText (tbReplyLimit - lead.length))

/-- The strings that `stage` copies. -/
def copies (config : TbHistoryConfig) (malloc : StringField → Bool) (record : TbMessageRecord) :
    StringField → Option (List UInt8)
  | .sender => tbBudgetCopy record.sender tbSenderLimit (malloc .sender)
  | .signature => tbBudgetCopy record.signature tbSenderLimit (malloc .signature)
  | .forward => tbBudgetCopy record.forward tbForwardLimit (malloc .forward)
  | .extra => tbBudgetCopy record.extra tbExtraLimit (malloc .extra)
  | .text => tbBudgetCopy record.text config.textLimit (malloc .text)
  | .reply =>
    if record.replyId.length = 0 then none
    else tbBudgetCopy (quote record) tbReplyLimit (malloc .reply)
  | .replyId =>
    if record.replyId.length = 0 then none
    else tbBudgetCopy record.replyId (tbTelegramIdSize - 1) (malloc .replyId)
  | .replySender =>
    if record.replyId.length = 0 then none
    else tbBudgetCopy record.replySender tbSenderLimit (malloc .replySender)

/-- The message that `stage` makes of a record. -/
def messageOf (config : TbHistoryConfig) (malloc : StringField → Bool) (record : TbMessageRecord)
    (id : CString) (key : ℤ) : TbMessage where
  id := id
  key := key
  date := record.date
  flags := record.flags
  kind := record.kind
  action := record.action
  duration := record.duration
  media := record.media
  album := if record.media &&& tbMediaFlagAlbum ≠ 0 then record.album else 0
  mediaCount := if record.mediaCount ≠ 0 then record.mediaCount else 1
  strings := copies config malloc record

namespace TbMessages

variable (config : TbHistoryConfig) (messages : TbMessages)

def clearItems : TbMessages :=
  { messages with items := [], used := messages.items.foldl freeMessage messages.used }

def clearStaging : TbMessages :=
  { messages with
    staging := []
    stagingInvalid := false
    used := messages.staging.foldl freeMessage messages.used }

/-- `stage`, or none where it returns false. -/
def stage (malloc : StringField → Bool) (messages : TbMessages) (record : TbMessageRecord) :
    Option TbMessages :=
  if config.pageLimit ≤ messages.staging.length then some messages
  else
    let (copied, id) := tbCopyId [] tbTelegramIdSize record.id false
    match copied, tbParseId id with
    | true, some key =>
      let item := messageOf config malloc record id key
      let used := messages.used + item.taken
      if (record.text.length ≠ 0 ∧ item.strings .text = none) ∨
          (record.sender.length ≠ 0 ∧ item.strings .sender = none) ∨
          (record.forward.length ≠ 0 ∧ item.strings .forward = none) then
        some { messages with used := freeMessage used item, stagingInvalid := true }
      else some { messages with staging := messages.staging ++ [item], used }
    | _, _ => none

/-- The loop of `parse`, at a record of the payload; a record takes bytes, so that their number is
fuel enough. -/
def parseLoop (malloc : ℕ → StringField → Bool) : ℕ → ℕ → TbCursor → TbMessages → TbMessages × Bool
  | _, _, [], messages => (messages, true)
  | 0, _, _ :: _, messages => (messages, false)
  | fuel + 1, index, cursor@(_ :: _), messages =>
    match tbCodecNext cursor with
    | none => (messages, false)
    | some (type, body, cursor) =>
      match tbCodecMessage body with
      | none => (messages, false)
      | some record =>
        if type ≠ tbRecordMessage then (messages, false)
        else
          match messages.stage config (malloc index) record with
          | none => (messages, false)
          | some messages => parseLoop malloc fuel (index + 1) cursor messages

def parse (malloc : ℕ → StringField → Bool) (messages : TbMessages) (payload : List UInt8) :
    TbMessages × Bool :=
  parseLoop config malloc payload.length 0 payload messages

/-- The inner loop of `sort_staging`: past the messages with a greater key, from the end. -/
def insertByKey (sorted : List TbMessage) (item : TbMessage) : List TbMessage :=
  sorted.rdropWhile (fun other => item.key < other.key) ++
    item :: sorted.rtakeWhile (fun other => item.key < other.key)

def sortStaging : TbMessages :=
  { messages with staging := messages.staging.foldl insertByKey [] }

def overLimits (count : ℕ) : Bool :=
  config.capacity < count || config.textBudget < messages.used

/-- The loop of `evict_newest`; a message is dropped each time, so that their number is fuel
enough. -/
def evictLoop : ℕ → TbMessages → TbMessages
  | 0, messages => messages
  | fuel + 1, messages =>
    match messages.items.getLast? with
    | none => messages
    | some newest =>
      if messages.overLimits config messages.items.length then
        evictLoop fuel { messages with
          items := messages.items.dropLast
          used := freeMessage messages.used newest
          truncated := true }
      else messages

def evictNewest : TbMessages :=
  evictLoop config messages.items.length messages

def keptBefore (key : ℤ) : ℕ :=
  (messages.items.rdropWhile fun item => key ≤ item.key).length

def removeFrom (keep : ℕ) : TbMessages :=
  { messages with
    items := messages.items.take keep
    used := (messages.items.drop keep).foldl freeMessage messages.used }

/-- The loop of `append_staging`. -/
def appendLoop : List TbMessage → List TbMessage → ℕ → List TbMessage × ℕ
  | [], items, used => (items, used)
  | item :: staging, items, used =>
    if items.getLast?.any (fun last => item.key ≤ last.key) ∨ config.capacity ≤ items.length then
      appendLoop staging items (freeMessage used item)
    else appendLoop staging (items ++ [item]) used

def appendStaging : TbMessages :=
  let (items, used) := appendLoop config messages.staging messages.items messages.used
  { messages with items, used, staging := [] }

/-- The loop of `prepend_staging` that takes the messages before the oldest. -/
def acceptLoop (oldest : ℤ) : List TbMessage → List TbMessage → ℕ → List TbMessage × ℕ
  | [], accepted, used => (accepted, used)
  | item :: staging, accepted, used =>
    if item.key < oldest ∧ accepted.length < config.capacity then
      acceptLoop oldest staging (accepted ++ [item]) used
    else acceptLoop oldest staging accepted (freeMessage used item)

def int64Max : ℤ := 9223372036854775807

def prependStaging : TbMessages :=
  let oldest := (messages.items.head?.map TbMessage.key).getD int64Max
  let (accepted, used) := acceptLoop config oldest messages.staging [] messages.used
  if accepted = [] then { messages with staging := [], used }
  else
    let room := config.capacity - accepted.length
    { messages with
      staging := []
      items := accepted ++ messages.items.take room
      used := (messages.items.drop room).reverse.foldl freeMessage used
      truncated := messages.truncated || room < messages.items.length }

/-- `merge_newest`, as far as it is about the messages. -/
def mergeNewest (first : Bool) : TbMessages :=
  match messages.items.getLast?, first with
  | none, _ | _, true => { messages.clearItems.appendStaging config with truncated := false }
  | some newest, false =>
    match messages.staging.head? with
    | none => messages
    | some smallest =>
      let keep := if smallest.key ≤ newest.key then messages.keptBefore smallest.key
        else messages.items.length
      let contiguous := smallest.key ≤ newest.key ∨ messages.staging.length < config.pageLimit
      if ¬ contiguous ∨ messages.overLimits config ((keep + messages.staging.length) % 65536) then
        { messages.clearStaging with truncated := true }
      else (messages.removeFrom keep).appendStaging config

def isEmpty (value : Option (List UInt8)) : Bool := value.all fun bytes => cString bytes = []

/-- Two members of an album: the one that is kept, and the one whose strings are freed. -/
def joined (last item : TbMessage) : TbMessage × TbMessage :=
  let mediaCount := if last.mediaCount < item.mediaCount then item.mediaCount else last.mediaCount
  let media := last.media ||| (item.media &&& (tbMediaFlagSpoiler ||| tbMediaFlagImage))
  if isEmpty (last.strings .text) ∧ ¬ isEmpty (item.strings .text) then
    ({ item with mediaCount, media, height := -1 }, { last with mediaCount, media })
  else ({ last with mediaCount, media, height := -1 }, item)

/-- The loop of `merge_albums`, with the message that was kept last. -/
def albumsFrom (last : TbMessage) (used : ℕ) : List TbMessage → List TbMessage × ℕ
  | [] => ([last], used)
  | item :: items =>
    if item.album ≠ 0 ∧ last.album = item.album then
      albumsFrom (joined last item).1 (freeMessage used (joined last item).2) items
    else
      let (others, used) := albumsFrom item used items
      (last :: others, used)

def mergeAlbums : TbMessages :=
  match messages.items with
  | [] => messages
  | first :: items =>
    let (items, used) := albumsFrom first messages.used items
    { messages with items, used }

end TbMessages

end Watch.HistoryView
