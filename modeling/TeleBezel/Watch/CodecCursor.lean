import Mathlib.Tactic.Ring
import TeleBezel.Watch.CodecExact

/-!
# The cursors of the codec

`codec.c` as it runs: a cursor is a pointer with a length and an offset of 16 bits, the bound of
`take` is computed in 32 bits, and what is stored of a span is a pointer and a length. Every cursor
stands for the bytes between its offset and its length, and on these the functions of the list
model are computed.
-/

open List

namespace Watch.Raw

open Reader (littleBytes)

abbrev Memory := ℕ → UInt8

structure TbCursor where
  data : ℕ
  length : UInt16
  offset : UInt16

/-- `tb_cursor_init`; a `NULL` has no bytes. -/
def tbCursorInit (data : Option ℕ) (length : UInt16) : TbCursor where
  data := data.getD 0
  length := if data.isSome then length else 0
  offset := 0

structure TbSpan where
  data : ℕ
  length : UInt16

inductive Stored
  | u8 (value : UInt8)
  | u16 (value : UInt16)
  | u32 (value : UInt32)
  | span (bytes : TbSpan)

def take (cursor : TbCursor) (size : UInt16) : Option (ℕ × TbCursor) :=
  if cursor.offset.toUInt32 + size.toUInt32 > cursor.length.toUInt32 then none
  else some (cursor.data + cursor.offset.toNat, { cursor with offset := cursor.offset + size })

/-- The loop of `little`. -/
def littleFrom (memory : Memory) (bytes : ℕ) : ℕ → UInt32 → UInt32
  | 0, value => value
  | size + 1, value =>
    littleFrom memory bytes size ((value <<< 8) ||| (memory (bytes + size)).toUInt32)

def little (memory : Memory) (bytes size : ℕ) : UInt32 := littleFrom memory bytes size 0

section Decode

variable (memory : Memory)

/-- A span after a length of `lead` bytes. -/
def decodeSpan (lead : UInt16) (body : TbCursor) : Option (Stored × TbCursor) := do
  let (bytes, body) ← take body lead
  let length := (little memory bytes lead.toNat).toUInt16
  let (data, body) ← take body length
  return (.span ⟨data, length⟩, body)

/-- One field of the loop of `tb_codec_decode`. -/
def decodeField (body : TbCursor) : Field → Option (Stored × TbCursor)
  | .u8 => do
    let (bytes, body) ← take body 1
    return (.u8 (little memory bytes 1).toUInt8, body)
  | .u16 => do
    let (bytes, body) ← take body 2
    return (.u16 (little memory bytes 2).toUInt16, body)
  | .u32 => do
    let (bytes, body) ← take body 4
    return (.u32 (little memory bytes 4), body)
  | .str8 => decodeSpan memory 1 body
  | .str16 => decodeSpan memory 2 body
  | .rest => do
    let length := body.length - body.offset
    let (data, body) ← take body length
    return (.span ⟨data, length⟩, body)

/-- `tb_codec_decode`: what is stored, in the order of the layout. -/
def tbCodecDecode (body : TbCursor) : List Field → Option (List Stored)
  | [] => if body.offset = body.length then some [] else none
  | field :: layout => do
    let (stored, body) ← decodeField memory body field
    let others ← tbCodecDecode body layout
    return stored :: others

def tbCodecNext (cursor : TbCursor) : Option (UInt8 × TbCursor × TbCursor) := do
  let (header, cursor) ← take cursor 3
  let length := (little memory (header + 1) 2).toUInt16
  let (content, cursor) ← take cursor length
  return (memory header, tbCursorInit (some content) length, cursor)

end Decode

/-! ### Cursors -/

def TbCursor.Within (cursor : TbCursor) : Prop := cursor.offset ≤ cursor.length

def bytesAt (memory : Memory) (data size : ℕ) : List UInt8 :=
  (List.range size).map fun i => memory (data + i)

def rest (memory : Memory) (cursor : TbCursor) : List UInt8 :=
  bytesAt memory (cursor.data + cursor.offset.toNat)
    (cursor.length.toNat - cursor.offset.toNat)

variable {memory : Memory} {cursor : TbCursor}

@[simp] theorem length_bytesAt (data size : ℕ) : (bytesAt memory data size).length = size := by
  simp [bytesAt]

theorem bytesAt_add (data size size' : ℕ) :
    bytesAt memory data (size + size') =
      bytesAt memory data size ++ bytesAt memory (data + size) size' := by
  simp only [bytesAt, range_add, map_append, map_map, Function.comp_def,
    Nat.add_assoc]

theorem length_rest (cursor : TbCursor) :
    (rest memory cursor).length = cursor.length.toNat - cursor.offset.toNat :=
  length_bytesAt _ _

theorem within_iff : cursor.Within ↔ cursor.offset.toNat ≤ cursor.length.toNat :=
  UInt16.le_iff_toNat_le

theorem take_exceeds_iff (size : UInt16) :
    cursor.offset.toUInt32 + size.toUInt32 > cursor.length.toUInt32 ↔
      cursor.length.toNat < cursor.offset.toNat + size.toNat := by
  have hoffset := cursor.offset.toNat_lt
  have hsize := size.toNat_lt
  rw [gt_iff_lt, UInt32.lt_iff_toNat_lt, UInt32.toNat_add, UInt16.toNat_toUInt32,
    UInt16.toNat_toUInt32, UInt16.toNat_toUInt32, Nat.mod_eq_of_lt (by omega)]

theorem take_eq_some_iff (cursor : TbCursor) (size : UInt16) (data : ℕ) (after : TbCursor) :
    take cursor size = some (data, after) ↔
      data = cursor.data + cursor.offset.toNat ∧ after.Within ∧ after.data = cursor.data ∧
        after.length = cursor.length ∧ after.offset.toNat = cursor.offset.toNat + size.toNat := by
  have hlength := cursor.length.toNat_lt
  rw [take]
  by_cases hexceeds : cursor.offset.toUInt32 + size.toUInt32 > cursor.length.toUInt32
  · rw [if_pos hexceeds]
    refine iff_of_false nofun ?_
    rintro ⟨-, hwithin', -, hsame, hoffset⟩
    rw [take_exceeds_iff] at hexceeds
    rw [within_iff, hsame] at hwithin'
    omega
  · rw [if_neg hexceeds, Option.some_inj, Prod.mk.injEq]
    rw [take_exceeds_iff] at hexceeds
    have hadd : (cursor.offset + size).toNat = cursor.offset.toNat + size.toNat := by
      rw [UInt16.toNat_add]
      omega
    constructor
    · rintro ⟨rfl, rfl⟩
      refine ⟨rfl, ?_, rfl, rfl, hadd⟩
      rw [within_iff]
      dsimp only
      omega
    · rintro ⟨rfl, -, hdata, hsame, hoffset⟩
      refine ⟨rfl, ?_⟩
      cases after
      simp only [TbCursor.mk.injEq] at hdata hsame hoffset ⊢
      exact ⟨hdata.symm, hsame.symm, UInt16.toNat_inj.mp (hadd.trans hoffset.symm)⟩

structure Advances (cursor after : TbCursor) : Prop where
  within : after.Within
  data : after.data = cursor.data
  length : after.length = cursor.length
  offset : cursor.offset.toNat ≤ after.offset.toNat

theorem Advances.trans {first second third : TbCursor} (h : Advances first second)
    (h' : Advances second third) : Advances first third where
  within := h'.within
  data := h'.data.trans h.data
  length := h'.length.trans h.length
  offset := h.offset.trans h'.offset

theorem advances_take {size : UInt16} {data : ℕ} {after : TbCursor}
    (h : take cursor size = some (data, after)) : Advances cursor after := by
  obtain ⟨-, hwithin, hdata, hlength, hoffset⟩ := (take_eq_some_iff _ _ _ _).mp h
  exact ⟨hwithin, hdata, hlength, by omega⟩

theorem map_bytesAt_take (memory : Memory) (hwithin : cursor.Within) (size : UInt16) :
    (take cursor size).map (fun (data, after) => (bytesAt memory data size.toNat, rest memory after)) =
      Watch.take (rest memory cursor) size.toNat := by
  rw [within_iff] at hwithin
  by_cases hexceeds : cursor.offset.toUInt32 + size.toUInt32 > cursor.length.toUInt32
  · rw [take, if_pos hexceeds]
    rw [take_exceeds_iff] at hexceeds
    rw [Watch.take, if_pos (by rw [length_rest]; omega)]
    rfl
  · cases htake : take cursor size with
    | none =>
      rw [take, if_neg hexceeds] at htake
      cases htake
    | some result =>
      obtain ⟨data, after⟩ := result
      obtain ⟨rfl, -, hdata, hlength, hoffset⟩ := (take_eq_some_iff _ _ _ _).mp htake
      rw [take_exceeds_iff] at hexceeds
      have hrest : rest memory cursor =
          bytesAt memory (cursor.data + cursor.offset.toNat) size.toNat ++ rest memory after := by
        rw [rest, rest, hdata, hlength, hoffset, ← Nat.add_assoc, ← bytesAt_add]
        congr 1
        omega
      rw [Option.map_some, take_eq, hrest, Eq.comm, Reader.exact_split]
      exact ⟨length_bytesAt _ _, rfl⟩

section

variable (memory : Memory) (bytes : ℕ)

theorem toNat_littleFrom {size above : ℕ} {value : UInt32}
    (hsize : size + above ≤ 4) (hvalue : value.toNat < 256 ^ above) :
    (littleFrom memory bytes size value).toNat =
      Reader.little (bytesAt memory bytes size) + value.toNat * 256 ^ size := by
  induction size generalizing above value with
  | zero => simp [littleFrom, bytesAt, Reader.little]
  | succ size ih =>
    have hbyte := (memory (bytes + size)).toNat_lt
    have hsmall : value.toNat * 256 < 2 ^ 32 := by
      have hpow : (256 : ℕ) ^ above ≤ 256 ^ 3 := Nat.pow_le_pow_right (by omega) (by omega)
      have hle := hvalue.trans_le hpow
      omega
    have hshift : ((value <<< 8) ||| (memory (bytes + size)).toUInt32).toNat =
        value.toNat * 256 + (memory (bytes + size)).toNat := by
      rw [UInt32.toNat_or, UInt32.toNat_shiftLeft, UInt8.toNat_toUInt32,
        show (8 : UInt32).toNat % 32 = 8 from rfl, Nat.shiftLeft_eq, Nat.mod_eq_of_lt hsmall,
        ← Nat.shiftLeft_eq _ 8, Nat.or_comm, Word.or_shiftLeft_eq_add hbyte, Nat.shiftLeft_eq]
      exact Nat.add_comm _ _
    have hnext : ((value <<< 8) ||| (memory (bytes + size)).toUInt32).toNat < 256 ^ (above + 1) := by
      rw [hshift, Nat.pow_succ]
      clear hsmall hshift ih
      omega
    have hbytes : bytesAt memory bytes (size + 1) =
        bytesAt memory bytes size ++ [memory (bytes + size)] := by
      rw [bytesAt_add]
      simp [bytesAt]
    rw [littleFrom, ih (by omega) hnext, hshift, hbytes, Reader.little_append, length_bytesAt,
      Reader.little_cons, Nat.pow_succ]
    simp only [Reader.little, foldr_nil]
    ring

theorem toNat_little {size : ℕ} (hsize : size ≤ 4) :
    (little memory bytes size).toNat = Watch.little (bytesAt memory bytes size) := by
  have hzero : (0 : UInt32).toNat < 256 ^ 0 := by decide
  rw [little, @toNat_littleFrom memory bytes size 0 0 (by omega) hzero, little_eq]
  simp

/-! ### Fields -/

def Stored.value (memory : Memory) : Stored → FieldValue
  | .u8 value => .number value.toNat
  | .u16 value => .number value.toNat
  | .u32 value => .number value.toNat
  | .span bytes => .span (bytesAt memory bytes.data bytes.length.toNat)

/-- The span lies inside the memory given. -/
def Stored.Inside (start stop : ℕ) : Stored → Prop
  | .span bytes => start ≤ bytes.data ∧ bytes.data + bytes.length.toNat ≤ stop
  | _ => True

theorem toNat_toUInt16_little {size : ℕ} (hsize : size ≤ 2) :
    (little memory bytes size).toUInt16.toNat = Watch.little (bytesAt memory bytes size) := by
  have hlt := Reader.little_lt (bytesAt memory bytes size)
  have hpow : (256 : ℕ) ^ size ≤ 256 ^ 2 := Nat.pow_le_pow_right (by omega) hsize
  rw [length_bytesAt, ← little_eq] at hlt
  rw [UInt32.toNat_toUInt16, toNat_little memory bytes (by omega), Nat.mod_eq_of_lt]
  exact hlt.trans_le hpow

theorem toNat_toUInt8_little :
    (little memory bytes 1).toUInt8.toNat = Watch.little (bytesAt memory bytes 1) := by
  have hlt := Reader.little_lt (bytesAt memory bytes 1)
  rw [length_bytesAt, ← little_eq] at hlt
  rw [UInt32.toNat_toUInt8, toNat_little memory bytes (by omega), Nat.mod_eq_of_lt]
  exact hlt.trans_eq (by norm_num)

end

def Stored.view (memory : Memory) (result : Stored × TbCursor) : FieldValue × List UInt8 :=
  (result.1.value memory, rest memory result.2)

theorem map_view_decodeSpan (hwithin : cursor.Within) {lead : UInt16} (hlead : lead.toNat ≤ 2) :
    (decodeSpan memory lead cursor).map (Stored.view memory) =
      Watch.decodeSpan lead.toNat (rest memory cursor) := by
  rw [decodeSpan, Watch.decodeSpan, ← map_bytesAt_take memory hwithin]
  cases htake : take cursor lead with
  | none => rfl
  | some result =>
    obtain ⟨bytes, after⟩ := result
    simp only [Option.map_some, Option.bind_eq_bind, Option.bind_some]
    rw [← toNat_toUInt16_little memory bytes hlead,
      ← map_bytesAt_take memory (advances_take htake).within]
    cases take after (little memory bytes lead.toNat).toUInt16 <;> rfl

theorem map_view_number (hwithin : cursor.Within) (size : UInt16) {store : UInt32 → Stored}
    (hstore : ∀ bytes, (store (little memory bytes size.toNat)).value memory =
      .number (Watch.little (bytesAt memory bytes size.toNat))) :
    (do
      let (bytes, after) ← take cursor size
      return (store (little memory bytes size.toNat), after)).map (Stored.view memory) =
      decodeNumber size.toNat (rest memory cursor) := by
  rw [decodeNumber, ← map_bytesAt_take memory hwithin]
  cases take cursor size with
  | none => rfl
  | some result => exact congrArg (fun value => some (value, rest memory result.2)) (hstore result.1)

theorem map_view_decodeField (hwithin : cursor.Within) (field : Field) :
    (decodeField memory cursor field).map (Stored.view memory) =
      Watch.decodeField (rest memory cursor) field := by
  cases field with
  | u8 =>
    refine @map_view_number memory cursor hwithin 1 (fun value => .u8 value.toUInt8) fun bytes => ?_
    exact congrArg FieldValue.number (toNat_toUInt8_little memory bytes)
  | u16 =>
    refine @map_view_number memory cursor hwithin 2 (fun value => .u16 value.toUInt16) fun bytes => ?_
    exact congrArg FieldValue.number (toNat_toUInt16_little memory bytes (by decide))
  | u32 =>
    refine @map_view_number memory cursor hwithin 4 .u32 fun bytes => ?_
    exact congrArg FieldValue.number (toNat_little memory bytes (by decide))
  | str8 | str16 => exact map_view_decodeSpan hwithin (by decide)
  | rest =>
    have hsize : (cursor.length - cursor.offset).toNat = (rest memory cursor).length := by
      rw [length_rest, UInt16.toNat_sub_of_le _ _ hwithin]
    have htake := map_bytesAt_take memory hwithin (cursor.length - cursor.offset)
    rw [hsize, Watch.take, if_neg (Nat.lt_irrefl _), take_length, drop_length] at htake
    obtain ⟨⟨data, after⟩, htaken, heq⟩ := Option.map_eq_some_iff.mp htake
    rw [Prod.mk.injEq] at heq
    simp only [decodeField, htaken, Option.bind_eq_bind, Option.bind_some, Option.pure_def,
      Option.map_some, Watch.decodeField, Stored.view, Stored.value, hsize]
    rw [heq.1, heq.2]

theorem decodeField_inside {field : Field} {stored : Stored} {after : TbCursor}
    (h : decodeField memory cursor field = some (stored, after)) :
    Advances cursor after ∧
      stored.Inside cursor.data (cursor.data + cursor.length.toNat) := by
  have hspan : ∀ {before last : TbCursor} {size : UInt16} {data : ℕ}, before.data = cursor.data →
      before.length = cursor.length → take before size = some (data, last) →
      Stored.Inside cursor.data (cursor.data + cursor.length.toNat) (.span ⟨data, size⟩) := by
    intro before last size data hdata hlength htake
    obtain ⟨rfl, hwithin, -, hsame, hoffset⟩ := (take_eq_some_iff _ _ _ _).mp htake
    rw [within_iff, hsame, hlength] at hwithin
    constructor <;> dsimp only <;> omega
  cases field with
  | u8 | u16 | u32 =>
    simp only [decodeField, Option.bind_eq_bind, Option.bind_eq_some_iff, Option.pure_def,
      Option.some.injEq, Prod.exists, Prod.mk.injEq] at h
    obtain ⟨bytes, after, htake, rfl, rfl⟩ := h
    exact ⟨advances_take htake, trivial⟩
  | str8 | str16 =>
    simp only [decodeField, decodeSpan, Option.bind_eq_bind, Option.bind_eq_some_iff,
      Option.pure_def, Option.some.injEq, Prod.exists, Prod.mk.injEq] at h
    obtain ⟨bytes, middle, htake, data, last, htake', rfl, rfl⟩ := h
    have hfirst := advances_take htake
    exact ⟨hfirst.trans (advances_take htake'), hspan hfirst.data hfirst.length htake'⟩
  | rest =>
    simp only [decodeField, Option.bind_eq_bind, Option.bind_eq_some_iff, Option.pure_def,
      Option.some.injEq, Prod.exists, Prod.mk.injEq] at h
    obtain ⟨data, last, htake, rfl, rfl⟩ := h
    exact ⟨advances_take htake, hspan rfl rfl htake⟩

theorem map_value_tbCodecDecode (hwithin : cursor.Within) (layout : List Field) :
    (tbCodecDecode memory cursor layout).map (List.map (Stored.value memory)) =
      Watch.tbCodecDecode (rest memory cursor) layout := by
  induction layout generalizing cursor with
  | nil =>
    have hend : cursor.offset = cursor.length ↔ rest memory cursor = [] := by
      rw [within_iff] at hwithin
      rw [← UInt16.toNat_inj, ← length_eq_zero_iff, length_rest]
      omega
    rw [tbCodecDecode, Watch.tbCodecDecode]
    by_cases hrest : rest memory cursor = []
    · rw [if_pos hrest, if_pos (hend.mpr hrest)]
      rfl
    · rw [if_neg hrest, if_neg fun h => hrest (hend.mp h)]
      rfl
  | cons field layout ih =>
    rw [tbCodecDecode, Watch.tbCodecDecode, ← map_view_decodeField hwithin]
    cases hfield : decodeField memory cursor field with
    | none => rfl
    | some result =>
      obtain ⟨stored, after⟩ := result
      have hadvances := (decodeField_inside hfield).1
      simp only [Option.map_some, Option.bind_eq_bind, Option.bind_some, Stored.view]
      rw [← ih hadvances.within]
      cases tbCodecDecode memory after layout <;> rfl

theorem inside_tbCodecDecode {layout : List Field} {stored : List Stored}
    (h : tbCodecDecode memory cursor layout = some stored) :
    ∀ field ∈ stored, field.Inside cursor.data (cursor.data + cursor.length.toNat) := by
  induction layout generalizing cursor stored with
  | nil =>
    rw [tbCodecDecode] at h
    split_ifs at h
    cases h
    nofun
  | cons field layout ih =>
    simp only [tbCodecDecode, Option.bind_eq_bind, Option.bind_eq_some_iff, Option.pure_def,
      Option.some.injEq, Prod.exists] at h
    obtain ⟨first, after, hfirst, others, hothers, rfl⟩ := h
    obtain ⟨hadvances, hinside⟩ := decodeField_inside hfirst
    have hlater := ih hothers
    rw [hadvances.data, hadvances.length] at hlater
    exact forall_mem_cons.mpr ⟨hinside, hlater⟩

/-! ### Records -/

theorem take_eq_none_iff (size : UInt16) :
    take cursor size = none ↔ cursor.length.toNat < cursor.offset.toNat + size.toNat := by
  rw [← take_exceeds_iff, take]
  simp

theorem tbCodecNext_some {type : UInt8} {body after : TbCursor}
    (h : tbCodecNext memory cursor = some (type, body, after)) :
    memory (cursor.data + cursor.offset.toNat) = type ∧
      body = ⟨cursor.data + cursor.offset.toNat + 3,
        (little memory (cursor.data + cursor.offset.toNat + 1) 2).toUInt16, 0⟩ ∧
      Advances cursor after ∧
      after.offset.toNat = cursor.offset.toNat + 3 + body.length.toNat := by
  simp only [tbCodecNext, Option.bind_eq_bind, Option.bind_eq_some_iff, Option.pure_def,
    Option.some.injEq, Prod.exists, Prod.mk.injEq] at h
  obtain ⟨header, middle, hheader, content, last, hcontent, rfl, rfl, rfl⟩ := h
  have hadvances := (advances_take hheader).trans (advances_take hcontent)
  obtain ⟨rfl, -, hdata, -, hoffset⟩ := (take_eq_some_iff _ _ _ _).mp hheader
  obtain ⟨rfl, -, -, -, hoffset'⟩ := (take_eq_some_iff _ _ _ _).mp hcontent
  have hthree : (3 : UInt16).toNat = 3 := rfl
  rw [hthree] at hoffset
  refine ⟨rfl, ?_, hadvances, ?_⟩
  · rw [tbCursorInit, hdata, hoffset]
    rfl
  · rw [hoffset', hoffset]
    rfl

/-- A record is longer than the memory given. -/
def Exceeds (memory : Memory) (start stop : ℕ) : Prop :=
  stop < start + 3 ∨ stop < start + 3 + Reader.little (bytesAt memory (start + 1) 2)

theorem tbCodecNext_none (h : tbCodecNext memory cursor = none) :
    Exceeds memory (cursor.data + cursor.offset.toNat) (cursor.data + cursor.length.toNat) := by
  rw [tbCodecNext] at h
  cases hheader : take cursor 3 with
  | none =>
    rw [take_eq_none_iff] at hheader
    have hthree : (3 : UInt16).toNat = 3 := rfl
    exact .inl (by omega)
  | some result =>
    obtain ⟨header, middle⟩ := result
    simp only [hheader, Option.bind_eq_bind, Option.bind_some] at h
    obtain ⟨rfl, -, -, hlength, hoffset⟩ := (take_eq_some_iff _ _ _ _).mp hheader
    have hthree : (3 : UInt16).toNat = 3 := rfl
    cases hcontent : take middle
        (little memory (cursor.data + cursor.offset.toNat + 1) 2).toUInt16 with
    | some result => simp [hcontent] at h
    | none =>
      rw [take_eq_none_iff, toNat_toUInt16_little memory _ (by decide), little_eq] at hcontent
      rw [hlength] at hcontent
      exact .inr (by omega)

theorem tbCodecNext_decreases {type : UInt8} {body after : TbCursor}
    (h : tbCodecNext memory cursor = some (type, body, after)) :
    after.length.toNat - after.offset.toNat < cursor.length.toNat - cursor.offset.toNat := by
  obtain ⟨-, -, hadvances, hoffset⟩ := tbCodecNext_some h
  have hwithin := within_iff.mp hadvances.within
  rw [hadvances.length] at hwithin ⊢
  omega

/-- The loop of the parsers: `tb_codec_next` until the cursor is at its end. -/
def records (memory : Memory) (cursor : TbCursor) : List (UInt8 × TbCursor) × Bool :=
  if cursor.offset < cursor.length then
    match _h : tbCodecNext memory cursor with
    | some (type, body, after) =>
      let (others, ok) := records memory after
      ((type, body) :: others, ok)
    | none => ([], false)
  else ([], true)
termination_by cursor.length.toNat - cursor.offset.toNat
decreasing_by exact tbCodecNext_decreases _h

/-- Records that lie one behind the other from a pointer on up to another: a type, a length and a
body of that length each. -/
def Tiles (memory : Memory) : ℕ → List (UInt8 × TbCursor) → ℕ → Prop
  | start, [], stop => start = stop
  | start, (type, body) :: others, stop =>
    memory start = type ∧ bytesAt memory (start + 1) 2 = littleBytes 2 body.length.toNat ∧
      body.data = start + 3 ∧ body.offset = 0 ∧
      Tiles memory (start + 3 + body.length.toNat) others stop

/-- **The loop of the parsers** returns records that tile the payload, or stops at the first that
does not fit. -/
theorem tiles_records (memory : Memory) (cursor : TbCursor) (hwithin : cursor.Within) :
    ∃ stop, Tiles memory (cursor.data + cursor.offset.toNat) (records memory cursor).1 stop ∧
      (if (records memory cursor).2 then stop = cursor.data + cursor.length.toNat
        else stop < cursor.data + cursor.length.toNat ∧
          Exceeds memory stop (cursor.data + cursor.length.toNat)) := by
  fun_induction records memory cursor with
  | case1 cursor hmore type body after hnext others ok hothers ih =>
    obtain ⟨htype, hbody, hadvances, hoffset⟩ := tbCodecNext_some hnext
    obtain ⟨stop, htiles, hstop⟩ := ih hadvances.within
    rw [hadvances.data, hadvances.length, hothers] at hstop
    rw [hadvances.data, hoffset, hothers] at htiles
    refine ⟨stop, ⟨htype, ?_, ?_, ?_, ?_⟩, hstop⟩
    · have hlength : body.length.toNat = Reader.little
          (bytesAt memory (cursor.data + cursor.offset.toNat + 1) 2) := by
        rw [hbody, ← little_eq]
        exact toNat_toUInt16_little memory _ (by decide)
      have hbytes := Reader.littleBytes_little
        (bytesAt memory (cursor.data + cursor.offset.toNat + 1) 2)
      rw [length_bytesAt] at hbytes
      rw [hlength, hbytes]
    · rw [hbody]
    · rw [hbody]
    · rw [Nat.add_assoc, Nat.add_assoc, ← Nat.add_assoc cursor.offset.toNat]
      exact htiles
  | case2 cursor hmore hnext =>
    refine ⟨_, rfl, ?_, tbCodecNext_none hnext⟩
    have hlt : cursor.offset.toNat < cursor.length.toNat := UInt16.lt_iff_toNat_lt.mp hmore
    omega
  | case3 cursor hdone =>
    refine ⟨_, rfl, ?_⟩
    have hge : ¬ cursor.offset.toNat < cursor.length.toNat := fun h =>
      hdone (UInt16.lt_iff_toNat_lt.mpr h)
    rw [within_iff] at hwithin
    rw [if_pos rfl]
    omega

theorem map_rest_tbCodecNext (memory : Memory) (hwithin : cursor.Within) :
    (tbCodecNext memory cursor).map
        (fun (type, body, after) => (type.toNat, rest memory body, rest memory after)) =
      Watch.tbCodecNext (rest memory cursor) := by
  have hheader := map_bytesAt_take memory hwithin 3
  have hthree : (3 : UInt16).toNat = 3 := rfl
  rw [hthree] at hheader
  rw [tbCodecNext, Watch.tbCodecNext, ← hheader]
  cases htake : take cursor 3 with
  | none => rfl
  | some result =>
    obtain ⟨header, middle⟩ := result
    have htail : (bytesAt memory header 3).drop 1 = bytesAt memory (header + 1) 2 := by
      rw [show 3 = 1 + 2 from rfl, bytesAt_add]
      exact drop_left' (length_bytesAt _ _)
    simp only [Option.map_some, Option.bind_eq_bind, Option.bind_some, htail]
    rw [← toNat_toUInt16_little memory (header + 1) (by decide),
      ← map_bytesAt_take memory (advances_take htake).within]
    cases take middle (little memory (header + 1) 2).toUInt16 with
    | none => rfl
    | some result => rfl

theorem records_of_frames {framed : List (ℕ × List UInt8)} (hframed : ∀ record ∈ framed, Framed record)
    (hwithin : cursor.Within) (hrest : rest memory cursor = framed.flatMap frame) :
    (records memory cursor).2 = true ∧
      List.Forall₂ (fun found record => found.1.toNat = record.1 ∧ found.2.Within ∧
        rest memory found.2 = record.2) (records memory cursor).1 framed := by
  induction framed generalizing cursor with
  | nil =>
    have hlength := @length_rest memory cursor
    rw [hrest, flatMap_nil, length_nil] at hlength
    have hend : ¬ cursor.offset < cursor.length := by
      rw [UInt16.lt_iff_toNat_lt]
      omega
    rw [records, if_neg hend]
    exact ⟨rfl, .nil⟩
  | cons record framed ih =>
    have hrecord := hframed record mem_cons_self
    have hnext : Watch.tbCodecNext (rest memory cursor) =
        some (record.1, record.2, framed.flatMap frame) :=
      (tbCodecNext_eq_some_iff _ _ _ _).mpr ⟨hrecord, hrest⟩
    rw [← map_rest_tbCodecNext memory hwithin, Option.map_eq_some_iff] at hnext
    obtain ⟨⟨type, body, after⟩, hnext, heq⟩ := hnext
    simp only [Prod.mk.injEq] at heq
    have hadvances := (tbCodecNext_some hnext).2.2.1
    have hbody : body.Within := by
      rw [(tbCodecNext_some hnext).2.1]
      exact UInt16.zero_le
    have hmore : cursor.offset < cursor.length := by
      have hdecreases := tbCodecNext_decreases hnext
      rw [UInt16.lt_iff_toNat_lt]
      omega
    obtain ⟨hok, hothers⟩ := ih (fun r hr => hframed r (mem_cons_of_mem _ hr)) hadvances.within
      heq.2.2
    rw [records, if_pos hmore]
    split
    · rename_i type' body' after' hnext'
      cases hnext.symm.trans hnext'
      exact ⟨hok, .cons ⟨heq.1, hbody, heq.2.1⟩ hothers⟩
    · rename_i hnone
      cases hnext.symm.trans hnone

/-- **The codec is exact.** For every byte string and every layout, a body is accepted with the values
that are stored of it exactly when it is their encoding, and every span lies inside it; and the loop
of the parsers returns records that tile the byte string, or stops at the first that does not
fit. -/
theorem codec_exact (memory : Memory) (data : Option ℕ) (length : UInt16) :
    let cursor := tbCursorInit data length
    let stop := cursor.data + cursor.length.toNat
    (∀ layout values,
      (tbCodecDecode memory cursor layout).map (List.map (Stored.value memory)) = some values ↔
        Fits layout values ∧ bytesAt memory cursor.data cursor.length.toNat = encode layout values) ∧
    (∀ layout stored, tbCodecDecode memory cursor layout = some stored →
      ∀ field ∈ stored, field.Inside cursor.data stop) ∧
    ∃ reached, Tiles memory cursor.data (records memory cursor).1 reached ∧
      (if (records memory cursor).2 then reached = stop
        else reached < stop ∧ Exceeds memory reached stop) := by
  intro cursor stop
  have hwithin : cursor.Within := UInt16.zero_le
  refine ⟨fun layout values => ?_, fun layout stored h => inside_tbCodecDecode h, ?_⟩
  · rw [map_value_tbCodecDecode hwithin, tbCodecDecode_eq_some_iff]
    rfl
  · exact tiles_records memory cursor hwithin

end Watch.Raw
