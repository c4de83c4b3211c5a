import Mathlib.Data.Rat.Floor
import TeleBezel.Phone.Entry

/-!
# The records that the phone writes

`app/src/pkjs/lib/codec.js`: the writer, the encoders of the records and `pack`, which lays records
out in chunks. How a text is cut and encoded is left open. A number of the language is given as
`ToNumber` has it, so that what is missing or no number is `NaN`.
-/

namespace Phone.Codec

inductive JsNumber
  | finite (value : ℚ)
  | infinity
  | negativeInfinity
  | nan

namespace JsNumber

/-- `ToInt32`, which rounds towards zero. -/
def toInt32 : JsNumber → BitVec 32
  | finite value => BitVec.ofInt 32 (if 0 ≤ value then ⌊value⌋ else ⌈value⌉)
  | _ => 0

variable (value : JsNumber)

/-- `value & 0xFF`. -/
def masked : ℕ := (value.toInt32 &&& 0xFF).toNat

/-- `value | flag`. -/
def or (flag : BitVec 32) : JsNumber := finite (value.toInt32 ||| flag).toInt

/-- `Math.max(0, Math.min(limit, Math.floor(value) || 0))`. -/
def clamped (limit : ℕ) : JsNumber → ℕ
  | finite value => (max 0 (min (limit : ℤ) ⌊value⌋)).toNat
  | infinity => limit
  | negativeInfinity => 0
  | nan => 0

/-- `length > value`. -/
def exceededBy (length : ℕ) : Bool :=
  match value with
  | finite value => value < length
  | infinity => false
  | negativeInfinity => true
  | nan => false

end JsNumber

/-! ### The writer -/

def u8 (value : JsNumber) : List UInt8 := [UInt8.ofNat value.masked]

def u16 (value : JsNumber) : List UInt8 :=
  let clamped := value.clamped 0xFFFF
  [UInt8.ofNat (clamped &&& 0xFF), UInt8.ofNat ((clamped >>> 8) &&& 0xFF)]

def u32 (value : JsNumber) : List UInt8 :=
  let clamped := value.clamped 0xFFFFFFFF
  [UInt8.ofNat (clamped &&& 0xFF), UInt8.ofNat ((clamped >>> 8) &&& 0xFF),
    UInt8.ofNat ((clamped >>> 16) &&& 0xFF), UInt8.ofNat ((clamped >>> 24) &&& 0xFF)]

def ofLength (length : ℕ) : JsNumber := .finite length

def raw8 (bytes : List UInt8) : List UInt8 :=
  u8 (ofLength (min bytes.length 255)) ++ bytes.take (min bytes.length 255)

def raw16 (bytes : List UInt8) : List UInt8 := u16 (ofLength bytes.length) ++ bytes

/-- The bytes that `Writer.ascii8` hands on; what is no text is none. -/
def ascii (value : Option JsString) : List UInt8 :=
  ((value.getD []).take 255).map fun unit => UInt8.ofNat (unit &&& 0x7F)

def ascii8 (value : Option JsString) : List UInt8 := raw8 (ascii value)

def record (type : ℕ) (body : List UInt8) : List UInt8 :=
  u8 (ofLength type) ++ u16 (ofLength body.length) ++ body

/-- What `text.encode` returns. -/
structure Encoded where
  bytes : List UInt8
  truncated : Bool

/-- `text.encode`: a text, the limit of its bytes, and whether it is one line. -/
abbrev TextEncoder (τ : Type) := τ → ℕ → Bool → Encoded

section Encoders

variable {τ : Type} (encode : TextEncoder τ)

/-- The bytes that `Writer.str8` hands on, for a text of one line. -/
def line (value : τ) (limit : ℕ) : List UInt8 :=
  (encode value (min (if limit = 0 then 255 else limit) 255) true).bytes

def str8 (value : τ) (limit : ℕ) : List UInt8 :=
  raw8 (line encode value limit)

/-- The value of `account`. -/
structure Account (τ : Type) where
  id : Option JsString
  name : τ
  state : JsNumber
  flags : JsNumber

/-- The value of `prefs`. -/
structure Prefs (τ : Type) where
  defaultAccount : Option JsString
  chatList : JsNumber
  host : τ
  showArchive : Bool
  unreadMode : JsNumber
  photoMode : JsNumber

/-- The value of `summary`. -/
structure Summary where
  connection : JsNumber
  proxy : Bool
  unreadChats : JsNumber
  unreadMessages : JsNumber

/-- The value of `status`. -/
structure Status where
  connection : JsNumber
  proxy : Bool

/-- The value of `chat`. -/
structure Chat (τ : Type) where
  id : Option JsString
  title : τ
  type : JsNumber
  flags : JsNumber
  unread : JsNumber
  lastDate : JsNumber
  previewKind : JsNumber
  previewAction : JsNumber
  previewDuration : JsNumber
  previewSender : τ
  previewExtra : τ
  previewText : τ
  send : JsNumber

/-- The value of `message`. -/
structure Message (τ : Type) where
  id : Option JsString
  date : JsNumber
  flags : JsNumber
  kind : JsNumber
  action : JsNumber
  duration : JsNumber
  sender : τ
  extra : τ
  text : τ
  replyId : Option JsString
  replySender : τ
  replyText : τ
  forwardFrom : τ
  media : JsNumber
  album : JsNumber
  mediaCount : JsNumber
  signature : τ

/-- The value of `templates`. -/
structure Templates where
  revision : JsNumber
  count : JsNumber
  flags : JsNumber

/-- The value of `template`. -/
structure Template (τ : Type) where
  index : JsNumber
  length : JsNumber
  preview : τ

/-- The value of `draft`. -/
structure Draft where
  id : JsNumber
  bytes : JsNumber
  units : JsNumber
  flags : JsNumber

/-- The value of `sendState`. -/
structure SendStateValue (τ : Type) where
  draftId : JsNumber
  state : JsNumber
  code : JsNumber
  retryAfter : JsNumber
  flags : JsNumber
  account : Option JsString
  chat : Option JsString
  message : Option JsString
  title : τ
  preview : τ

/-- The value of `mediaInfo`. -/
structure MediaInfo where
  state : JsNumber
  index : JsNumber
  count : JsNumber
  flags : JsNumber
  tag : JsNumber
  total : JsNumber
  retryAfter : JsNumber
  item : Option JsString

inductive Item (τ : Type)
  | account (value : Account τ)
  | prefs (value : Prefs τ)
  | summary (value : Summary)
  | status (value : Status)
  | chat (value : Chat τ) (textLimit : ℕ)
  | message (value : Message τ) (textLimit : ℕ)
  | templates (value : Templates)
  | template (value : Template τ) (previewLimit : ℕ)
  | draft (value : Draft)
  | sendState (value : SendStateValue τ) (restored : Bool)
  | text (bytes : List UInt8)
  | mediaInfo (value : MediaInfo)
  | mediaData (offset : JsNumber) (bytes : List UInt8)

/-- `condition ? 1 : 0`. -/
def bit (condition : Bool) : JsNumber := .finite (if condition then 1 else 0)

/-- `protocol.message_flag.truncated`. -/
def truncatedFlag : BitVec 32 := 4

/-- The flags that `message` writes. -/
def Message.written (value : Message τ) (encoded : Encoded) : JsNumber :=
  value.flags.or (if encoded.truncated then truncatedFlag else 0)

/-- `previewLimit || 48`, and at most 96. -/
def templateLimit (previewLimit : ℕ) : ℕ := min (if previewLimit = 0 then 48 else previewLimit) 96

/-- The types of the records, by `protocol.record`. -/
def Item.type : Item τ → ℕ
  | .account _ => 1
  | .prefs _ => 2
  | .chat _ _ => 3
  | .message _ _ => 4
  | .text _ => 5
  | .summary _ => 6
  | .status _ => 7
  | .templates _ => 8
  | .template _ _ => 9
  | .draft _ => 10
  | .sendState _ restored => if restored then 12 else 11
  | .mediaInfo _ => 13
  | .mediaData _ _ => 14

def Item.body : Item τ → List UInt8
  | .account v => [ascii8 v.id, str8 encode v.name 48, u8 v.state, u8 v.flags].flatten
  | .prefs v => [ascii8 v.defaultAccount, u8 v.chatList, str8 encode v.host 64,
      u8 (bit v.showArchive), u8 v.unreadMode, u8 v.photoMode].flatten
  | .summary v => [u8 v.connection, u8 (bit v.proxy), u32 v.unreadChats, u32 v.unreadMessages].flatten
  | .status v => [u8 v.connection, u8 (bit v.proxy)].flatten
  | .chat v textLimit => [ascii8 v.id, str8 encode v.title 64, u8 v.type, u8 v.flags, u16 v.unread,
      u32 v.lastDate, u8 v.previewKind, u8 v.previewAction, u16 v.previewDuration,
      str8 encode v.previewSender 32, str8 encode v.previewExtra 48,
      raw16 (encode v.previewText textLimit true).bytes, u8 v.send].flatten
  | .message v textLimit =>
    let encoded := encode v.text textLimit false
    [ascii8 v.id, u32 v.date, u8 (v.written encoded), u8 v.kind, u8 v.action, u16 v.duration,
      str8 encode v.sender 32, str8 encode v.extra 48, raw16 encoded.bytes, ascii8 v.replyId,
      str8 encode v.replySender 32, str8 encode v.replyText 64, str8 encode v.forwardFrom 48,
      u8 v.media, u32 v.album, u8 v.mediaCount, str8 encode v.signature 32].flatten
  | .templates v => [u32 v.revision, u8 v.count, u8 v.flags].flatten
  | .template v previewLimit =>
    [u8 v.index, u16 v.length, str8 encode v.preview (templateLimit previewLimit)].flatten
  | .draft v => [u32 v.id, u16 v.bytes, u16 v.units, u8 v.flags].flatten
  | .sendState v _ => [u32 v.draftId, u8 v.state, u8 v.code, u16 v.retryAfter, u8 v.flags,
      ascii8 v.account, ascii8 v.chat, ascii8 v.message, str8 encode v.title 32,
      str8 encode v.preview 40].flatten
  | .text bytes => [raw16 bytes].flatten
  | .mediaInfo v => [u8 v.state, u8 v.index, u8 v.count, u8 v.flags, u32 v.tag, u32 v.total,
      u16 v.retryAfter, ascii8 v.item].flatten
  | .mediaData offset bytes => [u32 offset, bytes].flatten

def Item.bytes (item : Item τ) : List UInt8 :=
  record item.type (item.body encode)

end Encoders

/-! ### Lengths -/

section Lengths

open List

@[simp] theorem length_u8 (value : JsNumber) : (u8 value).length = 1 := rfl

@[simp] theorem length_u16 (value : JsNumber) : (u16 value).length = 2 := rfl

@[simp] theorem length_u32 (value : JsNumber) : (u32 value).length = 4 := rfl

@[simp] theorem length_raw16 (bytes : List UInt8) : (raw16 bytes).length = 2 + bytes.length :=
  length_append

theorem length_raw8 {bytes : List UInt8} (h : bytes.length ≤ 255) :
    (raw8 bytes).length = 1 + bytes.length := by
  rw [raw8, length_append, length_u8, length_take]
  omega

theorem length_ascii_le (value : Option JsString) : (ascii value).length ≤ 255 := by
  rw [ascii, length_map]
  exact length_take_le _ _

@[simp] theorem length_ascii8 (value : Option JsString) :
    (ascii8 value).length = 1 + (ascii value).length := length_raw8 (length_ascii_le value)

@[simp] theorem length_record (type : ℕ) (body : List UInt8) :
    (record type body).length = 3 + body.length := by
  rw [record, length_append, length_append, length_u8, length_u16]

end Lengths

/-! ### Chunks -/

/-- One record of the loop of `pack`. -/
def packStep (budget : JsNumber) (state : List (List UInt8) × List UInt8) (item : List UInt8) :
    List (List UInt8) × List UInt8 :=
  if state.2.length > 0 ∧ budget.exceededBy (state.2.length + item.length) then
    (state.1 ++ [state.2], item)
  else (state.1, state.2 ++ item)

def pack (records : List (List UInt8)) (budget : JsNumber) : List (List UInt8) :=
  let (chunks, current) := records.foldl (packStep budget) ([], [])
  if current.length > 0 ∨ chunks.length = 0 then chunks ++ [current] else chunks

end Phone.Codec
