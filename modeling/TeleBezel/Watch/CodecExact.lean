import TeleBezel.Lib.ExactReader
import TeleBezel.Lib.Word
import TeleBezel.Watch.Codec

/-!
# What the codec accepts

A body is accepted along a layout exactly when it is the encoding of the values that are read from
it: numbers in little-endian bytes, spans after their length, and a last field that takes the
rest. A payload is cut into records that tile it, up to the first that does not fit.
-/

namespace Watch

open Reader (Exact littleBytes split exact_split exact_number)

theorem little_eq (bytes : List UInt8) : little bytes = Reader.little bytes := by
  induction bytes with
  | nil => rfl
  | cons byte bytes ih =>
    rw [Reader.little_cons, ← ih]
    show (little bytes <<< 8) ||| byte.toNat = _
    rw [Nat.or_comm]
    exact Word.or_shiftLeft_eq_add (i := 8) byte.toNat_lt

theorem take_eq (cursor : TbCursor) (size : ℕ) : take cursor size = split size cursor := rfl

def Field.write : Field → FieldValue → List UInt8
  | .u8, .number value => littleBytes 1 value
  | .u16, .number value => littleBytes 2 value
  | .u32, .number value => littleBytes 4 value
  | .str8, .span bytes => littleBytes 1 bytes.length ++ bytes
  | .str16, .span bytes => littleBytes 2 bytes.length ++ bytes
  | .rest, .span bytes => bytes
  | _, _ => []

def Field.Holds : Field → FieldValue → Prop
  | .u8, .number value => value < 256 ^ 1
  | .u16, .number value => value < 256 ^ 2
  | .u32, .number value => value < 256 ^ 4
  | .str8, .span bytes => bytes.length < 256 ^ 1
  | .str16, .span bytes => bytes.length < 256 ^ 2
  | .rest, .span _ => True
  | _, _ => False

def encode : List Field → List FieldValue → List UInt8
  | field :: layout, value :: values => field.write value ++ encode layout values
  | _, _ => []

/-- The values that a layout can hold: a field that takes the rest leaves none to later ones. -/
def Fits : List Field → List FieldValue → Prop
  | [], [] => True
  | field :: layout, value :: values =>
    field.Holds value ∧ (field = .rest → encode layout values = []) ∧ Fits layout values
  | _, _ => False

/-! ### Fields -/

def FieldValue.asNumber : FieldValue → ℕ
  | .number value => value
  | .span _ => 0

def FieldValue.asSpan : FieldValue → List UInt8
  | .number _ => []
  | .span bytes => bytes

theorem exact_decodeNumber (size : ℕ) :
    Exact (decodeNumber size) (littleBytes size ∘ FieldValue.asNumber)
      (fun value _ => ∃ number, value = .number number ∧ number < 256 ^ size) := by
  have hread : decodeNumber size = Reader.map .number (Reader.number size) := by
    funext body
    rw [decodeNumber, Reader.map, Reader.number, Reader.map, take_eq]
    cases split size body with
    | none => rfl
    | some result => simp [little_eq]
  rw [hread]
  refine (exact_number size).map ?_ ?_ ?_
  · exact fun value _ h => ⟨value, rfl, h⟩
  · rintro _ _ ⟨value, rfl, h⟩
    exact ⟨h, rfl⟩
  · exact fun _ _ _ => rfl

theorem exact_decodeSpan (lead : ℕ) :
    Exact (decodeSpan lead)
      (fun value => littleBytes lead value.asSpan.length ++ value.asSpan)
      (fun value _ => ∃ bytes, value = .span bytes ∧ bytes.length < 256 ^ lead) := by
  have hread : decodeSpan lead =
      Reader.map (fun value => .span value.2) (Reader.seq (Reader.number lead) split) := by
    funext body
    rw [decodeSpan, Reader.map, Reader.seq, Reader.number, Reader.map, take_eq]
    cases split lead body with
    | none => rfl
    | some result =>
      simp only [Option.bind_eq_bind, Option.bind_some, Option.map_some, take_eq, little_eq]
      cases split (Reader.little result.1) result.2 <;> rfl
  rw [hread]
  have hseq := (exact_number lead).seq (fun length => @exact_split UInt8 length)
  let parts (value : FieldValue) : ℕ × List UInt8 := (value.asSpan.length, value.asSpan)
  refine @Exact.map _ _ _ _ _ _ hseq _ parts _ ?_ ?_ ?_
  · rintro ⟨length, bytes⟩ _ ⟨hlength, hbytes⟩
    exact ⟨bytes, rfl, lt_of_eq_of_lt hbytes hlength⟩
  · rintro _ _ ⟨bytes, rfl, h⟩
    exact ⟨⟨h, rfl⟩, rfl⟩
  · rintro ⟨length, bytes⟩ _ ⟨-, hbytes⟩
    exact congrArg (·, bytes) hbytes

theorem exact_decodeField (field : Field) :
    Exact (fun body => decodeField body field) field.write
      (fun value rest => field.Holds value ∧ (field = .rest → rest = [])) := by
  intro body value rest
  cases field with
  | u8 | u16 | u32 =>
    refine (exact_decodeNumber _ body value rest).trans ?_
    cases value <;> simp [Field.Holds, Field.write, FieldValue.asNumber]
  | str8 | str16 =>
    refine (exact_decodeSpan _ body value rest).trans ?_
    cases value <;> simp [Field.Holds, Field.write, FieldValue.asSpan]
  | rest =>
    cases value with
    | number => simp [decodeField, Field.Holds]
    | span bytes =>
      simp only [decodeField, Field.Holds, Field.write, Option.some.injEq, Prod.mk.injEq,
        FieldValue.span.injEq, true_and, forall_const]
      constructor
      · rintro ⟨rfl, rfl⟩
        exact ⟨rfl, (List.append_nil _).symm⟩
      · rintro ⟨rfl, rfl⟩
        exact ⟨List.append_nil _, rfl⟩

/-- **What is accepted.** A body is accepted along a layout exactly when it is the encoding of the
values that are read from it. -/
theorem tbCodecDecode_eq_some_iff (layout : List Field) (body : TbCursor)
    (values : List FieldValue) :
    tbCodecDecode body layout = some values ↔ Fits layout values ∧ body = encode layout values := by
  induction layout generalizing body values with
  | nil =>
    cases values <;> simp [tbCodecDecode, Fits, encode]
  | cons field layout ih =>
    have hfield := exact_decodeField field
    rw [tbCodecDecode]
    constructor
    · intro h
      simp only [Option.bind_eq_bind, Option.bind_eq_some_iff, Option.pure_def, Option.some.injEq,
        Prod.exists] at h
      obtain ⟨value, rest, hvalue, values, hvalues, rfl⟩ := h
      obtain ⟨⟨hholds, hrest⟩, rfl⟩ := (hfield _ _ _).mp hvalue
      obtain ⟨hfits, rfl⟩ := (ih _ _).mp hvalues
      exact ⟨⟨hholds, hrest, hfits⟩, rfl⟩
    · rintro ⟨hfits, rfl⟩
      cases values with
      | nil => exact hfits.elim
      | cons value values =>
        obtain ⟨hholds, hrest, hfits⟩ := hfits
        have hvalue := hfield.read_write ⟨hholds, hrest⟩
        rw [encode, hvalue]
        have hvalues := (ih _ _).mpr ⟨hfits, rfl⟩
        simp [hvalues]

/-! ### Records -/

def frame (record : ℕ × List UInt8) : List UInt8 :=
  UInt8.ofNat record.1 :: littleBytes 2 record.2.length ++ record.2

def Framed (record : ℕ × List UInt8) : Prop := record.1 < 256 ∧ record.2.length < 256 ^ 2

theorem tbCodecNext_eq_some_iff (cursor : TbCursor) (type : ℕ) (body rest : TbCursor) :
    tbCodecNext cursor = some (type, body, rest) ↔
      Framed (type, body) ∧ cursor = frame (type, body) ++ rest := by
  have hheader := @exact_split UInt8 3
  rw [tbCodecNext, take_eq]
  constructor
  · intro h
    simp only [Option.bind_eq_bind, Option.bind_eq_some_iff, Option.pure_def, Option.some.injEq,
      Prod.exists, Prod.mk.injEq] at h
    obtain ⟨header, middle, hsplit, content, last, hcontent, rfl, rfl, rfl⟩ := h
    obtain ⟨hlength, rfl⟩ := (hheader _ _ _).mp hsplit
    obtain ⟨hbody, rfl⟩ := (exact_split _ _ _ _).mp hcontent
    match header, hlength with
    | [b₀, b₁, b₂], _ =>
      have hbytes : littleBytes 2 (little [b₁, b₂]) = [b₁, b₂] := by
        rw [little_eq]
        exact Reader.littleBytes_little [b₁, b₂]
      have hlt : little [b₁, b₂] < 256 ^ 2 := by
        rw [little_eq]
        exact Reader.little_lt [b₁, b₂]
      refine ⟨⟨b₀.toNat_lt, hbody ▸ hlt⟩, ?_⟩
      simp [frame, hbody, hbytes]
  · rintro ⟨⟨htype, hlength⟩, rfl⟩
    have hbytes : Reader.little (littleBytes 2 body.length) = body.length :=
      Reader.little_littleBytes hlength
    have hsplit : split 3 (frame (type, body) ++ rest) =
        some (UInt8.ofNat type :: littleBytes 2 body.length, body ++ rest) := by
      rw [hheader]
      exact ⟨rfl, by simp [frame]⟩
    have hcontent : take (body ++ rest) body.length = some (body, rest) :=
      (exact_split _ _ _ _).mpr ⟨rfl, rfl⟩
    simp [hsplit, little_eq, hbytes, hcontent, Nat.mod_eq_of_lt htype]

end Watch
