import Mathlib.Data.List.Induction
import TeleBezel.Phone.Codec
import TeleBezel.Watch.CodecCursor

/-!
# What the watch reads of the records of the phone

The phone writes the fields of a record one after the other, and the watch reads them along a
layout of its own. They agree on every record: each number is read as the writer has clamped it and
each text as the bytes that were chosen for it. The chunks of `pack` hold whole records, so the loop
of the watch finds them all, as long as a chunk is no longer than a cursor of the watch can say.
-/

open List

namespace Wire

open Phone.Codec Watch Reader

variable {τ : Type} (encode : TextEncoder τ) (value : JsNumber)

/-- A number as `Writer.u8`, `Writer.u16` and `Writer.u32` write it. -/
def byteValue : FieldValue := .number value.masked

@[inherit_doc byteValue] def wordValue : FieldValue :=
  .number (value.clamped 0xFFFF)

@[inherit_doc byteValue] def longValue : FieldValue :=
  .number (value.clamped 0xFFFFFFFF)

variable (bytes : List UInt8)

/-- A text as `Writer.raw8` writes it. -/
def shortValue : FieldValue := .span (bytes.take 255)

def values : Item τ → List FieldValue
  | .account v => [shortValue (ascii v.id), shortValue (line encode v.name 48), byteValue v.state,
      byteValue v.flags]
  | .prefs v => [shortValue (ascii v.defaultAccount), byteValue v.chatList,
      shortValue (line encode v.host 64), byteValue (bit v.showArchive), byteValue v.unreadMode,
      byteValue v.photoMode]
  | .summary v => [byteValue v.connection, byteValue (bit v.proxy), longValue v.unreadChats,
      longValue v.unreadMessages]
  | .status v => [byteValue v.connection, byteValue (bit v.proxy)]
  | .chat v textLimit => [shortValue (ascii v.id), shortValue (line encode v.title 64),
      byteValue v.type, byteValue v.flags, wordValue v.unread, longValue v.lastDate,
      byteValue v.previewKind, byteValue v.previewAction, wordValue v.previewDuration,
      shortValue (line encode v.previewSender 32), shortValue (line encode v.previewExtra 48),
      .span (encode v.previewText textLimit true).bytes, byteValue v.send]
  | .message v textLimit =>
    let encoded := encode v.text textLimit false
    [shortValue (ascii v.id), longValue v.date, byteValue (v.written encoded), byteValue v.kind,
      byteValue v.action, wordValue v.duration, shortValue (line encode v.sender 32),
      shortValue (line encode v.extra 48), .span encoded.bytes, shortValue (ascii v.replyId),
      shortValue (line encode v.replySender 32), shortValue (line encode v.replyText 64),
      shortValue (line encode v.forwardFrom 48), byteValue v.media, longValue v.album,
      byteValue v.mediaCount, shortValue (line encode v.signature 32)]
  | .templates v => [longValue v.revision, byteValue v.count, byteValue v.flags]
  | .template v previewLimit => [byteValue v.index, wordValue v.length,
      shortValue (line encode v.preview (templateLimit previewLimit))]
  | .draft v => [longValue v.id, wordValue v.bytes, wordValue v.units, byteValue v.flags]
  | .sendState v _ => [longValue v.draftId, byteValue v.state, byteValue v.code,
      wordValue v.retryAfter, byteValue v.flags, shortValue (ascii v.account),
      shortValue (ascii v.chat), shortValue (ascii v.message), shortValue (line encode v.title 32),
      shortValue (line encode v.preview 40)]
  | .text bytes => [.span bytes]
  | .mediaInfo v => [byteValue v.state, byteValue v.index, byteValue v.count, byteValue v.flags,
      longValue v.tag, longValue v.total, wordValue v.retryAfter, shortValue (ascii v.item)]
  | .mediaData offset bytes => [longValue offset, .span bytes]

/-! ### The writer -/

theorem masked_lt : value.masked < 256 := by
  rw [JsNumber.masked, BitVec.toNat_and]
  exact Nat.and_lt_two_pow _ (n := 8) (by decide)

theorem clamped_le (limit : ℕ) (value : JsNumber) : value.clamped limit ≤ limit := by
  cases value <;> simp only [JsNumber.clamped] <;> omega

theorem clamped_ofLength_min (limit length : ℕ) :
    (ofLength length).clamped limit = min length limit := by
  simp only [ofLength, JsNumber.clamped, Int.floor_natCast]
  omega

theorem clamped_ofLength {limit length : ℕ} (h : length ≤ limit) :
    (ofLength length).clamped limit = length := by
  rw [clamped_ofLength_min, Nat.min_eq_left h]

theorem masked_ofLength {length : ℕ} (h : length < 256) : (ofLength length).masked = length := by
  have hround : (if (0 : ℚ) ≤ (length : ℚ) then ⌊(length : ℚ)⌋ else ⌈(length : ℚ)⌉) = length := by
    rw [if_pos (by positivity), Int.floor_natCast]
  simp only [ofLength, JsNumber.masked, JsNumber.toInt32, hround]
  rw [BitVec.toNat_and, BitVec.ofInt_natCast, BitVec.toNat_ofNat]
  show length % 2 ^ 32 &&& 255 = length
  rw [Nat.mod_eq_of_lt (by omega), Nat.and_two_pow_sub_one_eq_mod length 8]
  omega

theorem u8_eq : u8 value = Field.write .u8 (byteValue value) := rfl

theorem ofNat_and (n : ℕ) : UInt8.ofNat (n &&& 0xFF) = UInt8.ofNat n := by
  apply UInt8.toNat_inj.mp
  rw [UInt8.toNat_ofNat', UInt8.toNat_ofNat', Nat.and_two_pow_sub_one_eq_mod n 8]
  omega

theorem u16_eq : u16 value = Field.write .u16 (wordValue value) := by
  simp only [u16, Field.write, wordValue, littleBytes, ofNat_and, Nat.shiftRight_eq_div_pow,
    Nat.reducePow]

theorem u32_eq : u32 value = Field.write .u32 (longValue value) := by
  simp only [u32, Field.write, longValue, littleBytes, ofNat_and, Nat.shiftRight_eq_div_pow,
    Nat.div_div_eq_div_mul, Nat.reducePow, Nat.reduceMul]

theorem raw8_eq : raw8 bytes = Field.write .str8 (shortValue bytes) := by
  have htake : bytes.take (min bytes.length 255) = bytes.take 255 := by
    rw [take_eq_take_iff]
    omega
  rw [raw8, u8, masked_ofLength (by omega), htake, shortValue, Field.write, length_take,
    Nat.min_comm]
  rfl

theorem raw16_eq {bytes : List UInt8} (h : bytes.length < 65536) :
    raw16 bytes = Field.write .str16 (.span bytes) := by
  rw [raw16, u16_eq, wordValue, clamped_ofLength (by omega)]
  rfl

/-! ### Fields -/

@[simp] theorem holds_byteValue : Field.Holds .u8 (byteValue value) := masked_lt value

@[simp] theorem holds_wordValue : Field.Holds .u16 (wordValue value) :=
  Nat.lt_succ_of_le (clamped_le 0xFFFF value)

@[simp] theorem holds_longValue : Field.Holds .u32 (longValue value) :=
  Nat.lt_succ_of_le (clamped_le 0xFFFFFFFF value)

@[simp] theorem holds_shortValue : Field.Holds .str8 (shortValue bytes) := by
  show (bytes.take 255).length < 256 ^ 1
  rw [length_take]
  omega

theorem holds_span {bytes : List UInt8} (h : bytes.length < 65536) :
    Field.Holds .str16 (.span bytes) := h

@[simp] theorem holds_rest : Field.Holds .rest (.span bytes) := trivial

theorem length_raw16_le {bytes : List UInt8} {parts : List (List UInt8)} (h : raw16 bytes ∈ parts) :
    bytes.length ≤ parts.flatten.length := by
  have hsublist := (sublist_flatten_of_mem h).length_le
  rw [raw16, length_append] at hsublist
  omega

section

variable {item : Item τ} (hbody : (item.body encode).length < 65536)
include item hbody

theorem body_eq_encode :
    Fits (tbLayout item.type) (values encode item) ∧
      item.body encode = Watch.encode (tbLayout item.type) (values encode item) := by
  cases item with
  | chat v textLimit =>
    have htext : (encode v.previewText textLimit true).bytes.length < 65536 :=
      (length_raw16_le (by simp)).trans_lt hbody
    simp [Fits, tbLayout, Item.type, values, Item.body, Watch.encode, u8_eq, u16_eq, u32_eq, ascii8,
      str8, raw8_eq, raw16_eq htext, holds_span htext]
  | message v textLimit =>
    have htext : (encode v.text textLimit false).bytes.length < 65536 :=
      (length_raw16_le (by simp)).trans_lt hbody
    simp [Fits, tbLayout, Item.type, values, Item.body, Watch.encode, u8_eq, u16_eq, u32_eq, ascii8,
      str8, raw8_eq, raw16_eq htext, holds_span htext]
  | text bytes =>
    have htext : bytes.length < 65536 := (length_raw16_le (by simp)).trans_lt hbody
    simp [Fits, tbLayout, Item.type, values, Item.body, Watch.encode, raw16_eq htext, holds_span htext]
  | mediaData offset bytes =>
    simp [Fits, tbLayout, Item.type, values, Item.body, Watch.encode, u32_eq, Field.write]
  | sendState v restored =>
    cases restored <;>
      simp [Fits, tbLayout, Item.type, values, Item.body, Watch.encode, u8_eq, u16_eq, u32_eq,
        ascii8, str8, raw8_eq]
  | account v | prefs v | summary v | status v | templates v | template v previewLimit | draft v
  | mediaInfo v =>
    simp [Fits, tbLayout, Item.type, values, Item.body, Watch.encode, u8_eq, u16_eq, u32_eq, ascii8,
      str8, raw8_eq]

theorem bytes_eq_frame :
    item.bytes encode = frame (item.type, item.body encode) ∧
      Framed (item.type, item.body encode) := by
  have htype : item.type < 256 := by
    cases item with
    | sendState v restored => cases restored <;> simp [Item.type]
    | _ => simp [Item.type]
  refine ⟨?_, htype, hbody⟩
  rw [Item.bytes, record, u16_eq, u8, masked_ofLength htype, wordValue, clamped_ofLength (by omega)]
  rfl

theorem tbCodecNext_bytes (rest : List UInt8) :
    tbCodecNext (item.bytes encode ++ rest) = some (item.type, item.body encode, rest) := by
  obtain ⟨hframe, hframed⟩ := bytes_eq_frame encode hbody
  rw [hframe]
  exact (tbCodecNext_eq_some_iff _ _ _ _).mpr ⟨hframed, rfl⟩

theorem tbCodecDecode_body :
    tbCodecDecode (item.body encode) (tbLayout item.type) = some (values encode item) :=
  (tbCodecDecode_eq_some_iff _ _ _).mpr (body_eq_encode encode hbody)

end

/-! ### Chunks -/

section Pack

variable {α : Type} {write : α → List UInt8}

/-- What `pack` has laid out: whole records, in their order, and some in every chunk. -/
def Packed (write : α → List UInt8) (done : List α) (state : List (List UInt8) × List UInt8) : Prop :=
  ∃ (groups : List (List α)) (last : List α), groups.flatten ++ last = done ∧
    state.1 = groups.map (·.flatMap write) ∧ state.2 = last.flatMap write ∧ ∀ group ∈ groups, group ≠ []

theorem packed_step {budget : JsNumber} {done : List α} {state : List (List UInt8) × List UInt8}
    (h : Packed write done state) (item : α) :
    Packed write (done ++ [item]) (packStep budget state (write item)) := by
  obtain ⟨groups, last, rfl, hchunks, hcurrent, hfull⟩ := h
  rw [packStep]
  split_ifs with hover
  · refine ⟨groups ++ [last], [item], ?_, ?_, ?_, ?_⟩
    · simp
    · simp [hchunks, hcurrent]
    · simp
    · intro group hgroup
      rw [mem_append, mem_singleton] at hgroup
      rcases hgroup with hgroup | rfl
      · exact hfull group hgroup
      · rintro rfl
        rw [hcurrent] at hover
        exact absurd hover.1 (Nat.lt_irrefl 0)
  · refine ⟨groups, last ++ [item], ?_, hchunks, ?_, hfull⟩
    · simp
    · simp [hcurrent]

variable (budget : JsNumber)

theorem packed_foldl (items : List α) :
    Packed write items ((items.map write).foldl (packStep budget) ([], [])) := by
  induction items using List.reverseRecOn with
  | nil => exact ⟨[], [], rfl, rfl, rfl, nofun⟩
  | append_singleton items item ih =>
    rw [map_append, foldl_append]
    exact packed_step ih item

/-- **No record is split across chunks**, and if there are any, every chunk has some. -/
theorem pack_groups_full {items : List α} (hitems : ∀ item ∈ items, write item ≠ []) :
    ∃ groups : List (List α), groups.flatten = items ∧
      pack (items.map write) budget = groups.map (·.flatMap write) ∧
      (items ≠ [] → ∀ group ∈ groups, group ≠ []) := by
  obtain ⟨groups, last, hdone, hchunks, hcurrent, hfull⟩ := @packed_foldl α write budget items
  rw [pack]
  dsimp only
  split_ifs with hlast
  · refine ⟨groups ++ [last], ?_, ?_, fun hsome group hgroup => ?_⟩
    · simp [hdone]
    · simp [hchunks, hcurrent]
    · rw [mem_append, mem_singleton] at hgroup
      rcases hgroup with hgroup | rfl
      · exact hfull group hgroup
      · rintro rfl
        rw [hcurrent, hchunks, length_map] at hlast
        rcases hlast with hpos | hnone
        · exact absurd hpos (Nat.lt_irrefl 0)
        · rw [length_eq_zero_iff.1 hnone] at hdone
          exact hsome hdone.symm
  · -- nothing is left to lay out: what is left would be a record without bytes
    have hempty : last = [] := by
      push Not at hlast
      rw [hcurrent] at hlast
      have hflat : last.flatMap write = [] := length_eq_zero_iff.mp (by omega)
      cases last with
      | nil => rfl
      | cons item last =>
        rw [flatMap_cons, append_eq_nil_iff] at hflat
        exact (hitems item (by rw [← hdone]; simp) hflat.1).elim
    refine ⟨groups, ?_, hchunks, fun _ => hfull⟩
    rw [← hdone, hempty, append_nil]

theorem pack_groups {items : List α} (hitems : ∀ item ∈ items, write item ≠ []) :
    ∃ groups : List (List α), groups.flatten = items ∧
      pack (items.map write) budget = groups.map (·.flatMap write) := by
  obtain ⟨groups, hflatten, hpack, -⟩ := pack_groups_full budget hitems
  exact ⟨groups, hflatten, hpack⟩

end Pack

/-! ### The loop of the watch -/

variable (chunk : List UInt8)

def memoryOf : Raw.Memory := fun i => chunk.getD i 0

/-- What the loop of the watch reads of a chunk: the types of the records and the values of their
fields, and whether the loop came to the end. -/
def heard : List (ℕ × Option (List FieldValue)) × Bool :=
  let memory := memoryOf chunk
  let (found, ok) := Raw.records memory (Raw.tbCursorInit (some 0) (UInt16.ofNat chunk.length))
  (found.map fun (type, body) =>
    (type.toNat, (Raw.tbCodecDecode memory body (tbLayout type.toNat)).map
      (List.map (Raw.Stored.value memory))), ok)

theorem bytesAt_memoryOf :
    Raw.bytesAt (memoryOf chunk) 0 chunk.length = chunk := by
  apply ext_getElem
  · rw [Raw.length_bytesAt]
  · intro i _ hi
    simp [Raw.bytesAt, memoryOf, hi]

theorem heard_of_group {group : List (Item τ)}
    (hbody : ∀ item ∈ group, (item.body encode).length < 65536)
    (hlength : (group.flatMap (Item.bytes encode)).length < 65536) :
    heard (group.flatMap (Item.bytes encode)) =
      (group.map fun item => (item.type, some (values encode item)), true) := by
  set chunk := group.flatMap (Item.bytes encode) with hchunk
  set cursor := Raw.tbCursorInit (some 0) (UInt16.ofNat chunk.length)
  have hwithin : cursor.Within := UInt16.zero_le
  have hcursor : cursor.length.toNat = chunk.length := UInt16.toNat_ofNat_of_lt hlength
  have hrest : Raw.rest (memoryOf chunk) cursor =
      (group.map fun item => (item.type, item.body encode)).flatMap frame := by
    have hwhole : Raw.rest (memoryOf chunk) cursor =
        Raw.bytesAt (memoryOf chunk) 0 cursor.length.toNat := rfl
    rw [hwhole, hcursor, bytesAt_memoryOf, hchunk, flatMap_map]
    exact flatMap_congr fun item hitem => (bytes_eq_frame encode (hbody item hitem)).1
  have hframed : ∀ record ∈ group.map fun item => (item.type, item.body encode), Framed record := by
    rintro _ hrecord
    obtain ⟨item, hitem, rfl⟩ := mem_map.mp hrecord
    exact (bytes_eq_frame encode (hbody item hitem)).2
  obtain ⟨hok, hfound⟩ := Raw.records_of_frames hframed hwithin hrest
  rw [forall₂_map_right_iff] at hfound
  have hread : heard chunk = ((Raw.records (memoryOf chunk) cursor).1.map fun (type, body) =>
      (type.toNat, (Raw.tbCodecDecode (memoryOf chunk) body (tbLayout type.toNat)).map
        (List.map (Raw.Stored.value (memoryOf chunk)))),
      (Raw.records (memoryOf chunk) cursor).2) := rfl
  rw [hread, hok, Prod.mk.injEq]
  refine ⟨?_, rfl⟩
  clear hok hread hrest hframed hchunk hlength hcursor
  generalize (Raw.records (memoryOf chunk) cursor).1 = found at hfound
  induction hfound with
  | nil => rfl
  | @cons found item others group hrecord _ ih =>
    obtain ⟨type, body⟩ := found
    obtain ⟨htype, hbodyWithin, hbytes⟩ := hrecord
    rw [map_cons, map_cons, ih fun item hitem => hbody item (mem_cons_of_mem _ hitem)]
    have hvalues := tbCodecDecode_body encode (hbody item mem_cons_self)
    dsimp only
    rw [Raw.map_value_tbCodecDecode hbodyWithin, htype, hbytes, hvalues]

/-- **The phone and the watch agree.** Of the chunks that hold the records of the phone, none longer
than a cursor of the watch can say, the watch reads the same records in the same order, each number as
it was clamped and each text as it was chosen; and no record is split. -/
theorem records_agree (items : List (Item τ)) (budget : JsNumber)
    (hbody : ∀ item ∈ items, (item.body encode).length < 65536)
    (hchunks : ∀ chunk ∈ pack (items.map (Item.bytes encode)) budget, chunk.length < 65536) :
    (∃ groups : List (List (Item τ)), groups.flatten = items ∧
      pack (items.map (Item.bytes encode)) budget = groups.map (·.flatMap (Item.bytes encode))) ∧
    (∀ chunk ∈ pack (items.map (Item.bytes encode)) budget, (heard chunk).2 = true) ∧
    (pack (items.map (Item.bytes encode)) budget).flatMap (fun chunk => (heard chunk).1) =
      items.map fun item => (item.type, some (values encode item)) := by
  have hnonempty : ∀ item ∈ items, Item.bytes encode item ≠ [] := by
    intro item _
    simp [Item.bytes, record, u8]
  obtain ⟨groups, rfl, hpack⟩ := pack_groups budget hnonempty
  rw [hpack] at hchunks ⊢
  have hheard : ∀ group ∈ groups, heard (group.flatMap (Item.bytes encode)) =
      (group.map fun item => (item.type, some (values encode item)), true) := by
    intro group hgroup
    refine heard_of_group encode (fun item hitem => ?_) ?_
    · exact hbody item (List.mem_flatten_of_mem hgroup hitem)
    · exact hchunks _ (List.mem_map_of_mem hgroup)
  refine ⟨⟨groups, rfl, rfl⟩, ?_, ?_⟩
  · intro chunk hchunk
    obtain ⟨group, hgroup, rfl⟩ := List.mem_map.mp hchunk
    rw [hheard group hgroup]
  · rw [List.flatMap_map, List.map_flatten, ← List.flatMap_def]
    exact List.flatMap_congr fun group hgroup => by rw [hheard group hgroup]

/-- Two records in two chunks. -/
theorem records_agree_two :
    let encode : TextEncoder Unit := fun _ _ _ => ⟨[], false⟩
    let items : List (Item Unit) := [.status ⟨.finite 2, true⟩, .text [104, 105]]
    (pack (items.map (Item.bytes encode)) (.finite 8)).flatMap (fun chunk => (heard chunk).1) =
      [(7, some [.number 2, .number 1]), (5, some [.span [104, 105]])] := by
  intro encode items
  have hagree := records_agree encode items (.finite 8) (by decide +kernel) (by decide +kernel)
  refine hagree.2.2.trans ?_
  decide +kernel

/-- A text of which the phone makes a chunk that is longer than a cursor of the watch can say. -/
def longText : List UInt8 := List.replicate 65533 0

/-- Its body is short enough, but with the header of the record the chunk is not: the length that the
cursor is given wraps, and the watch reads nothing. -/
theorem long_record_lost :
    let encode : TextEncoder Unit := fun _ _ _ => ⟨[], false⟩
    let items : List (Item Unit) := [.text longText]
    (∀ item ∈ items, (item.body encode).length < 65536) ∧
      ¬ (pack (items.map (Item.bytes encode)) .infinity).flatMap (fun chunk => (heard chunk).1) =
        items.map fun item => (item.type, some (values encode item)) := by
  intro encode items
  have hlong : longText.length = 65533 := List.length_replicate
  set chunk := Item.bytes encode (.text longText) with hchunk
  have hlength : chunk.length = 65538 := by
    simp [hchunk, Item.bytes, Item.body, record, raw16, u8, u16, hlong]
  have hpack : pack (items.map (Item.bytes encode)) .infinity = [chunk] := by
    have hitems : items.map (Item.bytes encode) = [chunk] := rfl
    simp [hitems, pack, packStep, hlength]
  have hheard : (heard chunk).1 = [] := by
    have hwraps : UInt16.ofNat chunk.length = 2 := by
      rw [hlength]
      rfl
    have hnone : Raw.tbCodecNext (memoryOf chunk) (Raw.tbCursorInit (some 0) 2) = none := rfl
    have hrecords : Raw.records (memoryOf chunk) (Raw.tbCursorInit (some 0) 2) = ([], false) := by
      rw [Raw.records, if_pos (by decide)]
      split
      · rename_i hnext
        cases hnone.symm.trans hnext
      · rfl
    rw [heard, hwraps, hrecords]
    rfl
  refine ⟨?_, ?_⟩
  · simp [items, Item.body, raw16, u16, hlong]
  · rw [hpack, List.flatMap_singleton, hheard]
    simp [items]

end Wire
