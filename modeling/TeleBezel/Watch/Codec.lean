import TeleBezel.Watch.Text

/-!
# The records of a payload

A payload is a list of records, each a type, a 16-bit length and a body; a body is read field by
field along the layout of its type (`app/src/c/codec.c`).
-/

namespace Watch

/-- `TB_MEDIA_FLAG_IMAGE`, `TB_MEDIA_FLAG_SPOILER`, `TB_MEDIA_FLAG_RESTRICTED` and
`TB_MEDIA_FLAG_ALBUM`. -/
def tbMediaFlagImage : ℕ := 1

@[inherit_doc tbMediaFlagImage] def tbMediaFlagSpoiler : ℕ := 2

@[inherit_doc tbMediaFlagImage] def tbMediaFlagRestricted : ℕ := 4

@[inherit_doc tbMediaFlagImage] def tbMediaFlagAlbum : ℕ := 8

abbrev TbCursor := List UInt8

def take (cursor : TbCursor) (size : ℕ) : Option (List UInt8 × TbCursor) :=
  if cursor.length < size then none else some (cursor.take size, cursor.drop size)

def little (bytes : List UInt8) : ℕ := bytes.foldr (fun byte value => (value <<< 8) ||| byte.toNat) 0

inductive Field
  | u8
  | u16
  | u32
  | str8
  | str16
  | rest

inductive FieldValue
  | number (value : ℕ)
  | span (bytes : List UInt8)
deriving DecidableEq

variable (body : TbCursor)

/-- A number of `size` bytes. -/
def decodeNumber (size : ℕ) (body : TbCursor) : Option (FieldValue × TbCursor) := do
  let (bytes, body) ← take body size
  return (.number (little bytes), body)

/-- A span after a length of `lead` bytes. -/
def decodeSpan (lead : ℕ) (body : TbCursor) : Option (FieldValue × TbCursor) := do
  let (bytes, body) ← take body lead
  let (bytes, body) ← take body (little bytes)
  return (.span bytes, body)

/-- One field of the loop of `tb_codec_decode`. -/
def decodeField : Field → Option (FieldValue × TbCursor)
  | .u8 => decodeNumber 1 body
  | .u16 => decodeNumber 2 body
  | .u32 => decodeNumber 4 body
  | .str8 => decodeSpan 1 body
  | .str16 => decodeSpan 2 body
  | .rest => some (.span body, [])

/-- `tb_codec_decode`: the values of the fields, if the body holds them and nothing else. -/
def tbCodecDecode : TbCursor → List Field → Option (List FieldValue)
  | body, [] => if body = [] then some [] else none
  | body, field :: layout => do
    let (value, body) ← decodeField body field
    let values ← tbCodecDecode body layout
    return value :: values

/-- `tb_codec_next`: the type of a record, its body and the payload after it. -/
def tbCodecNext (cursor : TbCursor) : Option (ℕ × TbCursor × TbCursor) := do
  let (header, cursor) ← take cursor 3
  let (content, cursor) ← take cursor (little (header.drop 1))
  return ((header.getD 0 0).toNat, content, cursor)

/-- The layouts of the records, by `TB_RECORD_ACCOUNT` and so on. -/
def tbLayout : ℕ → List Field
  | 1 => [.str8, .str8, .u8, .u8]
  | 2 => [.str8, .u8, .str8, .u8, .u8, .u8]
  | 3 => [.str8, .str8, .u8, .u8, .u16, .u32, .u8, .u8, .u16, .str8, .str8, .str16, .u8]
  | 4 => [.str8, .u32, .u8, .u8, .u8, .u16, .str8, .str8, .str16, .str8, .str8, .str8, .str8, .u8,
      .u32, .u8, .str8]
  | 5 => [.str16]
  | 6 => [.u8, .u8, .u32, .u32]
  | 7 => [.u8, .u8]
  | 8 => [.u32, .u8, .u8]
  | 9 => [.u8, .u16, .str8]
  | 10 => [.u32, .u16, .u16, .u8]
  | 11 | 12 => [.u32, .u8, .u8, .u16, .u8, .str8, .str8, .str8, .str8, .str8]
  | 13 => [.u8, .u8, .u8, .u8, .u32, .u32, .u16, .str8]
  | 14 => [.u32, .rest]
  | _ => []

section Records

def tbRecordSendState : ℕ := 11

def tbRecordPendingSend : ℕ := 12

def tbRecordMediaInfo : ℕ := 13

def tbRecordMediaData : ℕ := 14

structure TbSendStateRecord where
  draftId : ℕ
  state : ℕ
  code : ℕ
  retryAfter : ℕ
  flags : ℕ
  account : List UInt8
  chat : List UInt8
  message : List UInt8
  title : List UInt8
  preview : List UInt8

def tbCodecSendState : Option TbSendStateRecord :=
  match tbCodecDecode body [.u32, .u8, .u8, .u16, .u8, .str8, .str8, .str8, .str8, .str8] with
  | some [.number draftId, .number state, .number code, .number retryAfter, .number flags,
      .span account, .span chat, .span message, .span title, .span preview] =>
    some ⟨draftId, state, code, retryAfter, flags, account, chat, message, title, preview⟩
  | _ => none

structure TbMediaInfoRecord where
  state : ℕ
  index : ℕ
  count : ℕ
  flags : ℕ
  tag : ℕ
  total : ℕ
  retryAfter : ℕ
  item : List UInt8

def tbCodecMediaInfo : Option TbMediaInfoRecord :=
  match tbCodecDecode body [.u8, .u8, .u8, .u8, .u32, .u32, .u16, .str8] with
  | some [.number state, .number index, .number count, .number flags, .number tag, .number total,
      .number retryAfter, .span item] =>
    some ⟨state, index, count, flags, tag, total, retryAfter, item⟩
  | _ => none

structure TbMediaDataRecord where
  offset : ℕ
  data : List UInt8

def tbCodecMediaData : Option TbMediaDataRecord :=
  match tbCodecDecode body [.u32, .rest] with
  | some [.number offset, .span data] => some ⟨offset, data⟩
  | _ => none

end Records

end Watch
