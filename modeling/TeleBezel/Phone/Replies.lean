import TeleBezel.Phone.MediaChunks
import TeleBezel.Phone.Pages
import TeleBezel.Phone.Templates

/-!
# What the phone answers with

`app/src/pkjs/lib/reader.js` and `compose.js`: the records that the answers to the watch are made of, the
limits of their texts, which follow from the size of the inbox of the watch, and the chunks that
`respond`, `push` and `sendMedia` hand on. A text that the service leaves out is an empty one, and
`normalize` of the language is a parameter.
-/

namespace Phone.Replies

open Codec Text

/-! ### The tables of the protocol -/

def name (text : String) : JsString := text.toList.map Char.toNat

/-- `hasOwnProperty.call(table, key) ? table[key] : other`. -/
def lookup (table : List (String × ℕ)) (key : JsString) (other : ℕ) : ℕ :=
  ((table.find? fun entry => name entry.1 = key).map Prod.snd).getD other

/-- `protocol.kind`. -/
def kinds : List (String × ℕ) :=
  [("text", 0), ("photo", 1), ("video", 2), ("voice_note", 3), ("video_note", 4), ("sticker", 5),
    ("document", 6), ("audio", 7), ("animation", 8), ("location", 9), ("venue", 10), ("contact", 11),
    ("poll", 12), ("dice", 13), ("call", 14), ("game", 15), ("story", 16), ("expired", 17),
    ("paid_media", 18), ("service", 19), ("unsupported", 20), ("none", 21)]

/-- `protocol.action`. -/
def actions : List (String × ℕ) :=
  [("none", 0), ("members_added", 1), ("member_joined", 2), ("member_left", 3), ("title_changed", 4),
    ("photo_changed", 5), ("chat_created", 6), ("pinned", 7), ("screenshot", 8), ("contact_joined", 9),
    ("video_chat", 10), ("auto_delete", 11), ("upgraded", 12), ("topic_created", 13), ("custom", 14)]

/-- `protocol.chat_type`. -/
def chatTypes : List (String × ℕ) :=
  [("private", 0), ("basic_group", 1), ("supergroup", 2), ("channel", 3), ("secret", 4), ("unknown", 5)]

/-- `protocol.can_send`. -/
def canSends : List (String × ℕ) :=
  [("unknown", 0), ("allowed", 1), ("read_only", 2), ("restricted", 3), ("not_member", 4), ("banned", 5),
    ("secret_chat", 6), ("user_deleted", 7)]

def needsLogin : List String :=
  ["awaiting_phone_number", "awaiting_code", "awaiting_password", "awaiting_email_address",
    "awaiting_email_code", "awaiting_qr_confirmation", "registration_required",
    "premium_purchase_required", "closed", "error", "logging_out"]

/-- The numbers of `protocol.result`. -/
def resultNumber : ResultCode → ℕ
  | .ok => 0
  | .configMissing => 1
  | .backendUnavailable => 3
  | .apiUnauthorized => 4
  | .protocolError => 6
  | .accountNeedsLogin => 7
  | .accountGone => 8
  | .chatNotFound => 9
  | .busy => 11
  | .cursorLost => 12
  | .wrongTokenType => 15
  | .sendForbidden => 16
  | .replyUnavailable => 17
  | .textTooLong => 18
  | .draftLost => 19
  | .sendUnknown => 20
  | .sendRateLimited => 21

/-- The numbers of `protocol.send_state`. -/
def sendStateNumber : SendState → ℕ
  | .dispatching | .pending => 0
  | .sent => 1
  | .failed => 2
  | .unknown => 3

def flag (condition : Bool) (value : ℕ) : ℕ := if condition then value else 0

/-- `value > 0`. -/
def positive : JsNumber → Bool
  | .finite value => 0 < value
  | .infinity => true
  | .negativeInfinity => false
  | .nan => false

/-- `first || second`, of texts. -/
def orElse (first second : JsString) : JsString := if first ≠ [] then first else second

/-! ### What the service gives -/

/-- `sender` of a message. -/
structure ApiSender where
  /-- The type is `chat`. -/
  isChat : Bool
  id : JsString
  name : JsString
  fallback : JsString

/-- `content` of a message. -/
structure ApiContent where
  kind : JsString
  action : JsString := []
  /-- When it is an integer. -/
  duration : Option ℤ := none
  text : JsString := []
  title : JsString := []
  emoji : JsString := []
  media : Option Media := none

/-- `reply_to` of a message. -/
structure ApiReplyTo where
  messageId : JsString
  senderName : JsString
  text : JsString

/-- `forward_from` of a message. -/
structure ApiOrigin where
  name : JsString
  fallback : JsString
  signature : JsString

structure ApiMessage where
  id : JsString
  date : JsNumber
  isOutgoing : Bool := false
  editDate : JsNumber := .nan
  sendingState : JsString := []
  authorSignature : JsString := []
  sender : Option ApiSender := none
  content : ApiContent
  replyTo : Option ApiReplyTo := none
  forwardFrom : Option ApiOrigin := none
  isChannelPost : Bool := false

/-- `can_send` of a chat. -/
structure ApiCanSend where
  text : Option Bool
  reason : JsString

structure ApiChat where
  id : JsString
  title : JsString
  type : JsString
  useDefaultMuteFor : Option Bool
  muteFor : JsNumber
  /-- It is pinned in the list that was asked for. -/
  isPinned : Bool
  isMarkedUnread : Bool
  unreadMentionCount : JsNumber
  unreadCount : JsNumber
  isSavedMessages : Bool
  canSend : Option ApiCanSend
  lastMessage : Option ApiMessage

/-- `telegram_identity` of an account. -/
structure ApiIdentity where
  firstName : JsString
  lastName : JsString
  usernames : List JsString

structure ApiAccount where
  id : JsString
  label : JsString
  identity : Option ApiIdentity
  lifecycle : JsString
  available : Bool
  authorizationState : JsString

/-- The settings of the phone, as far as `bootstrap` reads them. -/
structure ReaderSettings where
  address : JsString
  showArchive : Bool
  /-- `unreadMode` is `messages`. -/
  unreadMessages : Bool
  /-- `photoMode` is `manual`. -/
  photoManual : Bool

structure ApiPreferences where
  defaultAccountId : JsString
  /-- `chat_list` is `archive`. -/
  archive : Bool

/-! ### Records of messages and chats -/

/-- What `describe` returns. -/
structure Described where
  kind : ℕ
  action : ℕ
  duration : JsNumber
  text : JsString
  extra : JsString
  sender : JsString

def describe (message : ApiMessage) (chatId : JsString) : Described where
  kind := lookup kinds message.content.kind 20
  action := lookup actions message.content.action 0
  duration := .finite (message.content.duration.getD 0)
  text := message.content.text
  extra := orElse message.content.title message.content.emoji
  sender :=
    if message.authorSignature ≠ [] then message.authorSignature
    else
      match message.sender with
      | some sender =>
        if sender.isChat ∧ sender.id = chatId then [] else orElse sender.name sender.fallback
      | none => []

def noPreview : Described where
  kind := 21
  action := 0
  duration := .finite 0
  text := []
  extra := []
  sender := []

def chatRecord (chat : ApiChat) (textLimit : ℕ) : Item JsString :=
  let last := chat.lastMessage
  let preview := last.elim noPreview fun message => describe message chat.id
  let outgoing := last.any (·.isOutgoing)
  .chat {
    id := some chat.id
    title := chat.title
    type := ofLength (lookup chatTypes chat.type 5)
    flags := ofLength (
      flag (chat.useDefaultMuteFor = some false && positive chat.muteFor) 1 |||
        flag chat.isPinned 2 ||| flag chat.isMarkedUnread 4 |||
        flag (positive chat.unreadMentionCount) 8 ||| flag outgoing 16 |||
        flag chat.isSavedMessages 32)
    unread := chat.unreadCount
    lastDate := last.elim (ofLength 0) (·.date)
    previewKind := ofLength preview.kind
    previewAction := ofLength preview.action
    previewDuration := preview.duration
    previewSender := if outgoing then [] else preview.sender
    previewExtra := preview.extra
    previewText := preview.text
    send := ofLength <|
      match chat.canSend with
      | some ⟨some true, _⟩ => 1
      | some ⟨some false, reason⟩ => lookup canSends reason 2
      | _ => 0 } textLimit

def forwardName : Option ApiOrigin → JsString
  | none => []
  | some origin =>
    let name := orElse origin.name origin.fallback
    if name ≠ [] ∧ origin.signature ≠ [] then name ++ [0x20, 0xB7, 0x20] ++ origin.signature
    else orElse name origin.signature

/-- A message as far as `mediaTools` reads it. -/
def ApiMessage.toMedia (message : ApiMessage) : Message where
  id := 0
  media := message.content.media
  text := message.content.text
  channelPost := message.isChannelPost

/-- An entry of `group`. -/
structure ApiGroup where
  message : ApiMessage
  count : ℕ
  spoiler : Bool

/-- The part of `group` for one group. -/
def groupOf (members : List ApiMessage) : Option ApiGroup :=
  members.getLast?.map fun last =>
    let message := (members.find? fun member => member.content.text ≠ []).getD last
    { message
      count := if 1 < members.length then members.length else inner message.content.media
      spoiler := members.any fun member => member.content.media.any Media.spoiler }

/-- `group`. -/
def groups (items : List ApiMessage) : List ApiGroup :=
  (items.splitBy fun first next => sameAlbum first.toMedia next.toMedia).filterMap groupOf

/-- The value that `messageRecord` hands to the codec. -/
def messageValue (entry : ApiGroup) (chat : JsString) : Codec.Message JsString :=
  let message := entry.message
  let described := describe message chat
  let reply := message.replyTo.filter fun reply => messagePattern reply.messageId
  { id := some message.id
    date := message.date
    flags := ofLength (flag message.isOutgoing 1 ||| flag (positive message.editDate) 2 |||
      flag (message.sendingState = name "pending") 8 |||
      flag (message.sendingState = name "failed") 16 ||| flag reply.isSome 32)
    kind := ofLength described.kind
    action := ofLength described.action
    duration := described.duration
    sender := described.sender
    extra := described.extra
    text := described.text
    replyId := some (reply.elim [] (·.messageId))
    replySender := reply.elim [] (·.senderName)
    replyText := reply.elim [] (·.text)
    forwardFrom := forwardName message.forwardFrom
    media := ofLength (mediaFlags message.toMedia ||| flag entry.spoiler 2)
    album := ofLength (album message.toMedia)
    mediaCount := ofLength entry.count
    signature := message.authorSignature }

def messageRecord (entry : ApiGroup) (chat : JsString) (textLimit : ℕ) : Item JsString :=
  .message (messageValue entry chat) textLimit

/-! ### Other records -/

/-- `name` of an account. -/
def accountName (account : ApiAccount) : JsString :=
  if account.label.any fun unit => !Templates.isSpace unit then account.label
  else
    let full := account.identity.elim [] fun identity =>
      List.intercalate [0x20] ([identity.firstName, identity.lastName].filter (· ≠ []))
    let username := account.identity.elim [] fun identity => identity.usernames.head?.getD []
    if full ≠ [] then full
    else if username ≠ [] then 0x40 :: username
    else account.id.take 8

def accountState (account : ApiAccount) : ℕ :=
  if account.lifecycle = name "removing" ∨ account.lifecycle = name "removed" then 4
  else if account.lifecycle = name "logout_pending" then 3
  else if account.lifecycle ≠ name "active" ∨ !account.available then 2
  else if account.authorizationState = name "ready" then 0
  else if needsLogin.any fun state => name state = account.authorizationState then 1
  else 2

def accountRecord (defaultAccount : JsString) (account : ApiAccount) : Item JsString :=
  .account {
    id := some account.id
    name := accountName account
    state := ofLength (accountState account)
    flags := ofLength (flag (account.id = defaultAccount) 1) }

/-- The value of the preferences of `bootstrap`. -/
def prefsValue (settings : ReaderSettings) (preferences : ApiPreferences) : Prefs JsString where
  defaultAccount := some preferences.defaultAccountId
  chatList := bit (settings.showArchive && preferences.archive)
  host := settings.address
  showArchive := settings.showArchive
  unreadMode := bit settings.unreadMessages
  photoMode := bit settings.photoManual

def connectionState (connection : JsString) : ℕ :=
  if connection = name "ready" then 2 else if connection = name "updating" then 1 else 0

/-- `counter`, of an integer. -/
def counter (value : Option ℤ) : JsNumber := .finite (max 0 (value.getD 0))

/-- The value that `record` of the composer hands to the codec. -/
def sendValue (entry : Entry) (restored : Bool) : SendStateValue JsString :=
  let sent := Phone.record entry restored
  { draftId := ofLength sent.draftId
    state := ofLength (sendStateNumber sent.state)
    code := ofLength (resultNumber sent.code)
    retryAfter := .finite sent.retryAfter
    flags := ofLength (flag sent.retryable 1 ||| flag sent.replyDropped 2 ||| flag sent.restored 4)
    account := some sent.account
    chat := some sent.chat
    message := some sent.message
    title := sent.title
    preview := sent.preview }

/-- `record` of the composer. -/
def sendRecord (entry : Entry) (restored : Bool) : Item JsString :=
  .sendState (sendValue entry restored) restored

/-! ### Limits -/

/-- What `limits` returns. -/
structure Bounds where
  page : ℕ
  text : ℕ

/-- `limits`, of what the watch asks for where that is an integer. -/
def limits (pageLimit textLimit : Option ℤ) (defaultPage defaultText maxText : ℤ) : Bounds where
  page := (max 1 (min 50 (pageLimit.getD defaultPage))).toNat
  text := (max 16 (min maxText (textLimit.getD defaultText))).toNat

/-- The bounds of `chats`. -/
def chatBounds (inboxSize : ℕ) (pageLimit textLimit : Option ℤ) : Bounds :=
  limits pageLimit textLimit 20 80 (max 16 (min 512 (budget inboxSize - 200)))

/-- The bounds of `history`. -/
def historyBounds (inboxSize : ℕ) (pageLimit textLimit : Option ℤ) : Bounds :=
  limits pageLimit textLimit 20 300 (max 16 (min 1024 (budget inboxSize - 200)))

/-- The limit of the texts of `fullText`, `draft` and `templates`. -/
def textBound (greatest otherwise : ℤ) (textLimit : Option ℤ) : ℕ :=
  (max 16 (min greatest (textLimit.getD otherwise))).toNat

/-! ### Answers -/

def CachedMedia : Type :=
  { entry : MediaEntry // ∃ inboxSize index offset tag answer inTime payloads,
    media inboxSize index offset tag none answer inTime = .messages payloads (some entry) }

/-- The answers to the watch, and the records that it is pushed, with what they are made from. -/
inductive Reply
  /-- Any code but `ok`. -/
  | failed
  /-- `ok`, with nothing to tell. -/
  | done
  | bootstrap (settings : ReaderSettings) (preferences : ApiPreferences) (accounts : List ApiAccount)
    (entries : List Entry)
  | chats (pageLimit textLimit : Option ℤ) (connection : JsString) (proxy : Bool)
    (unreadChats unreadMessages : Option ℤ) (items : List ApiChat)
  | history (pageLimit textLimit : Option ℤ) (chat : JsString) (items : List ApiMessage)
  | fullText (textLimit : Option ℤ) (chat : JsString) (message : ApiMessage)
  | events (connection : JsString) (proxy : Bool) (changed : List Entry)
  | templates (textLimit : Option ℤ) (snapshot : Templates.Snapshot) (stale : Bool)
  | draft (textLimit : Option ℤ) (id : ℕ) (text : JsString)
  /-- The composer answers with the record of an entry, or pushes those of some. -/
  | sends (entries : List Entry)
  | media (index : ℤ) (offset tag : ℕ) (cached : Option CachedMedia) (answer : Option ApiMedia)
    (inTime : Bool)

variable (normalize : JsString → JsString) (inboxSize : ℕ)

def Reply.items : Reply → List (Item JsString)
  | .failed | .done | .media _ _ _ _ _ _ => []
  | .bootstrap settings preferences accounts entries =>
    .prefs (prefsValue settings preferences) ::
      ((accounts.filter fun account => accountPattern account.id).take 8).map
        (accountRecord preferences.defaultAccountId) ++
      (entries.filter fun entry => entry.state ≠ .sent).map fun entry => sendRecord entry true
  | .chats pageLimit textLimit connection proxy unreadChats unreadMessages items =>
    .summary {
      connection := ofLength (connectionState connection)
      proxy
      unreadChats := counter unreadChats
      unreadMessages := counter unreadMessages } ::
      (items.filter fun chat => chatPattern chat.id).map fun chat =>
        chatRecord chat (chatBounds inboxSize pageLimit textLimit).text
  | .history pageLimit textLimit chat items =>
    (groups (items.filter fun message => messagePattern message.id)).map fun entry =>
      messageRecord entry chat (historyBounds inboxSize pageLimit textLimit).text
  | .fullText textLimit chat message =>
    let encoded := encode normalize (describe message chat).text (textBound 16384 4096 textLimit) false
    (splitUtf8 encoded.bytes (budget inboxSize - 8).toNat).map .text
  | .events connection proxy changed =>
    .status { connection := ofLength (connectionState connection), proxy } ::
      changed.map fun entry => sendRecord entry false
  | .templates textLimit snapshot stale =>
    Templates.records snapshot stale (textBound 96 48 textLimit)
  | .draft textLimit id text =>
    let shown := encode normalize text (textBound 8192 1024 textLimit) false
    .draft {
      id := ofLength id
      bytes := ofLength (utf8Bytes text)
      units := ofLength text.length
      flags := bit (maxTextUnits < text.length) } ::
      (splitUtf8 shown.bytes (budget inboxSize - 16).toNat).map .text
  | .sends entries => entries.map fun entry => sendRecord entry false

/-- The chunks that `respond`, `push` and `sendMedia` hand on. -/
def Reply.chunks : Reply → List (List UInt8)
  | .media index offset tag cached answer inTime =>
    match Phone.media inboxSize index offset tag (cached.map Subtype.val) answer inTime with
    | .messages payloads _ => payloads
    | .failed => [[]]
    | .polls => []
  | .failed => [[]]
  | reply =>
    pack ((reply.items normalize inboxSize).map (Item.bytes (encode normalize)))
      (.finite (budget inboxSize))

end Phone.Replies
