import TeleBezel.Link.CodecAgree
import TeleBezel.Phone.Replies

/-!
# The record of a send on its way to the watch

`codec.sendState` of `app/src/pkjs/lib/codec.js` writes the record of an entry, and
`tb_codec_send_state` of the watch reads it. The number of the attempt is not in it. How a text is
cut and encoded for the watch is left open.
-/

open List

namespace Link

open Phone Watch Wire Replies
open Phone.Codec (Item TextEncoder JsNumber ascii line)

variable (encode : TextEncoder JsString)

/-- The flags of a record, by `protocol.send_flag`. -/
def flags (record : SendRecord) : ℕ :=
  flag record.retryable 1 ||| flag record.replyDropped 2 ||| flag record.restored 4

/-- What the watch reads of the record of a send. -/
def heard (record : SendRecord) : TbSendStateRecord where
  draftId := min 4294967295 record.draftId
  state := sendStateNumber record.state
  code := resultNumber record.code
  retryAfter := (max 0 (min 65535 record.retryAfter)).toNat
  flags := flags record
  account := (ascii (some record.account)).take 255
  chat := (ascii (some record.chat)).take 255
  message := (ascii (some record.message)).take 255
  title := (line encode record.title 32).take 255
  preview := (line encode record.preview 40).take 255

/-- **The record of an entry** is read as it was meant. -/
theorem tbCodecSendState_sendRecord (entry : Entry) (restored : Bool) :
    tbCodecSendState ((sendRecord entry restored).body encode) =
      some (heard encode (Phone.record entry restored)) := by
  have hstate : ∀ state, sendStateNumber state < 256 := by
    intro state
    cases state <;> decide
  have hcode : ∀ code, resultNumber code < 256 := by
    intro code
    cases code <;> decide
  have hflags : ∀ record : SendRecord, flags record < 256 := by
    intro record
    unfold flags flag
    split <;> split <;> split <;> decide
  have hdecode : tbCodecDecode ((sendRecord entry restored).body encode) (tbLayout 11) =
      some (values encode (sendRecord entry restored)) := by
    refine (tbCodecDecode_eq_some_iff _ _ _).mpr ?_
    simp [Watch.Fits, tbLayout, sendRecord, values, Item.body, Watch.encode, u8_eq, u16_eq, u32_eq,
      Codec.ascii8, Codec.str8, raw8_eq]
  have hdraft : (sendValue entry restored).draftId.clamped 0xFFFFFFFF =
      min 4294967295 (Phone.record entry restored).draftId :=
    (clamped_ofLength_min _ _).trans (Nat.min_comm _ _)
  have hwait : (sendValue entry restored).retryAfter.clamped 0xFFFF =
      (max 0 (min 65535 (Phone.record entry restored).retryAfter)).toNat := by
    simp [sendValue, JsNumber.clamped]
  have hstate' : (sendValue entry restored).state.masked = _ := masked_ofLength (hstate _)
  have hcode' : (sendValue entry restored).code.masked = _ := masked_ofLength (hcode _)
  have hflags' : (sendValue entry restored).flags.masked = _ := masked_ofLength (hflags _)
  rw [tbCodecSendState]
  simp only [tbLayout] at hdecode
  rw [hdecode]
  simp only [values, sendRecord, byteValue, wordValue, longValue, shortValue, hdraft, hstate', hcode',
    hwait, hflags']
  rfl

end Link
