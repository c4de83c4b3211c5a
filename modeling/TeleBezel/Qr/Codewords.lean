import TeleBezel.Lib.BitString
import TeleBezel.Lib.Columns
import TeleBezel.Qr.Parity

/-!
# The codewords of a text

The bytes of a text behind their mode and count, padded to the capacity of a version, cut into
blocks and written out column by column with the parity of each block behind. A reader deals the
codewords out to the blocks again and parses the bytes.
-/

open BitString Columns List

namespace Qr

/-- The error correction codewords of a block and the blocks of a version, as their number and
their size. -/
structure Spec where
  ec : ℕ
  blocks : List (ℕ × ℕ)

/-- `VERSIONS`. -/
def versions : List Spec :=
  [⟨10, [(1, 16)]⟩,
   ⟨16, [(1, 28)]⟩,
   ⟨26, [(1, 44)]⟩,
   ⟨18, [(2, 32)]⟩,
   ⟨24, [(2, 43)]⟩,
   ⟨16, [(4, 27)]⟩,
   ⟨18, [(4, 31)]⟩,
   ⟨22, [(2, 38), (2, 39)]⟩,
   ⟨22, [(3, 36), (2, 37)]⟩,
   ⟨26, [(4, 43), (1, 44)]⟩]

/-- The parity bytes of a block. -/
def ecFor (version : ℕ) : ℕ := (versions.getD (version - 1) ⟨0, []⟩).ec

/-- The data bytes of each block. -/
def sizesFor (version : ℕ) : List ℕ :=
  (versions.getD (version - 1) ⟨0, []⟩).blocks.flatMap fun block => List.replicate block.1 block.2

/-- The data bytes of a version. -/
def capacity (version : ℕ) : ℕ := (sizesFor version).foldl (· + ·) 0

/-- The width of the field for the length. -/
def countBits (version : ℕ) : ℕ := if version < 10 then 8 else 16

/-- The mode, the count and the bytes, with the terminator and the zeros up to a whole byte. -/
def encodeBits (bytes : List UInt8) (version : ℕ) : List Bool :=
  let bits := bitsOf 4 0b0100 ++ bitsOf (countBits version) bytes.length ++ unpack bytes
  let bits := bits ++ bitsOf (min 4 (capacity version * 8 - bits.length)) 0
  bits ++ List.replicate ((8 - bits.length % 8) % 8) false

/-- The data codewords, padded to the capacity. -/
def encodeData (bytes : List UInt8) (version : ℕ) : List UInt8 :=
  let codewords := pack (encodeBits bytes version)
  codewords ++ (List.range (capacity version - codewords.length)).map fun index =>
    [0xec, 0x11].getD (index % 2) 0

/-- The blocks of the data. -/
def cut : List UInt8 → List ℕ → List (List UInt8)
  | _, [] => []
  | codewords, size :: sizes => codewords.take size :: cut (codewords.drop size) sizes

/-- The data of all blocks by columns, then their parity. -/
def interleave (codewords : List UInt8) (version : ℕ) : List UInt8 :=
  let data := cut codewords (sizesFor version)
  let parity := data.map fun block => remainder block (ecFor version)
  columns data ((sizesFor version).foldl max 0) ++
    (List.range (ecFor version)).flatMap fun index => parity.map fun block => block.getD index 0

/-! ## The reader -/

/-- The data of each block, from the interleaved codewords. -/
def dealData (version : ℕ) (codewords : List UInt8) : List (List UInt8) :=
  let sizes := sizesFor version
  deal (turns sizes (sizes.foldl max 0)) sizes.length codewords

/-- The parity of each block, from the interleaved codewords. -/
def dealParity (version : ℕ) (codewords : List UInt8) : List (List UInt8) :=
  let sizes := List.replicate (sizesFor version).length (ecFor version)
  deal (turns sizes (ecFor version)) sizes.length (codewords.drop (capacity version))

/-- The number in the first bits, and the other bits. -/
def takeBits (length : ℕ) (bits : List Bool) : Option (ℕ × List Bool) :=
  if length ≤ bits.length then some (valueOf (bits.take length), bits.drop length) else none

/-- The text in the data codewords, by mode, length and bytes. -/
def parse (version : ℕ) (data : List UInt8) : Option (List UInt8) :=
  match takeBits 4 (unpack data) with
  | some (0b0100, bits) =>
    match takeBits (countBits version) bits with
    | some (count, bits) =>
      if 8 * count ≤ bits.length then some (pack (bits.take (8 * count))) else none
    | none => none
  | _ => none

section Data

/-- A text fits a version by the rule of the encoder, which counts the header in whole bytes. -/
def Fits (bytes : List UInt8) (version : ℕ) : Prop :=
  bytes.length + (2 + if version < 10 then 1 else 2) ≤ capacity version

instance (bytes : List UInt8) (version : ℕ) : Decidable (Fits bytes version) :=
  inferInstanceAs (Decidable (_ ≤ _))

variable {bytes : List UInt8} {version : ℕ}

theorem capacity_le (hversion : version ≤ 10) :
    capacity version < 2 ^ countBits version := by
  interval_cases version <;> decide

theorem length_encodeBits (hfits : Fits bytes version) :
    (encodeBits bytes version).length % 8 = 0 ∧
      (encodeBits bytes version).length ≤ 8 * capacity version := by
  rw [Fits] at hfits
  simp only [encodeBits, length_append, length_replicate, length_bitsOf, length_unpack,
    countBits]
  split_ifs at hfits ⊢ <;> omega

theorem exists_encodeBits (bytes : List UInt8) (version : ℕ) :
    ∃ rest, encodeBits bytes version =
      bitsOf 4 0b0100 ++ (bitsOf (countBits version) bytes.length ++ (unpack bytes ++ rest)) := by
  simp only [encodeBits, append_assoc]
  exact ⟨_, rfl⟩

theorem takeBits_append (length value : ℕ) (bits : List Bool) :
    takeBits length (bitsOf length value ++ bits) = some (value % 2 ^ length, bits) := by
  have hle : length ≤ (bitsOf length value ++ bits).length := by
    rw [length_append, length_bitsOf]
    exact Nat.le_add_right _ _
  have htake : (bitsOf length value ++ bits).take length = bitsOf length value :=
    take_left' (length_bitsOf length value)
  have hdrop : (bitsOf length value ++ bits).drop length = bits :=
    drop_left' (length_bitsOf length value)
  rw [takeBits, if_pos hle, htake, hdrop, valueOf_bitsOf]

theorem length_encodeData (hfits : Fits bytes version) :
    (encodeData bytes version).length = capacity version := by
  have hbits := length_encodeBits hfits
  have hpack : (pack (encodeBits bytes version)).length = (encodeBits bytes version).length / 8 := by
    rw [pack, length_map, length_range]
  rw [encodeData, length_append, length_map, length_range, hpack]
  omega

theorem parse_encodeData (hversion : version ≤ 10) (hfits : Fits bytes version) :
    parse version (encodeData bytes version) = some bytes := by
  obtain ⟨rest, hrest⟩ := exists_encodeBits bytes version
  have hbits : unpack (pack (encodeBits bytes version)) = encodeBits bytes version := by
    refine @unpack_pack ((encodeBits bytes version).length / 8) _ ?_
    have := (length_encodeBits hfits).1
    omega
  have hcount : bytes.length % 2 ^ countBits version = bytes.length := by
    apply Nat.mod_eq_of_lt
    have hle : bytes.length ≤ capacity version := by
      rw [Fits] at hfits
      omega
    exact lt_of_le_of_lt hle (capacity_le hversion)
  rw [parse, encodeData, unpack_append, hbits, hrest, append_assoc, takeBits_append]
  simp only [Nat.reducePow, Nat.reduceMod]
  rw [append_assoc, takeBits_append, hcount]
  simp only []
  rw [if_pos (by simp only [length_append, length_unpack]; omega), append_assoc,
    take_left' (length_unpack bytes), pack_unpack]

end Data

section Blocks

variable {version : ℕ}

theorem capacity_eq_sum (version : ℕ) : capacity version = (sizesFor version).sum := by
  rw [capacity, sum_eq_foldl]

theorem cut_spec (sizes : List ℕ) {codewords : List UInt8} (h : codewords.length = sizes.sum) :
    (cut codewords sizes).map List.length = sizes ∧ (cut codewords sizes).flatten = codewords := by
  induction sizes generalizing codewords with
  | nil => exact ⟨rfl, (eq_nil_of_length_eq_zero h).symm⟩
  | cons size sizes ih =>
    rw [sum_cons] at h
    obtain ⟨hlength, hflatten⟩ := @ih (codewords.drop size) (by rw [length_drop]; omega)
    refine ⟨?_, ?_⟩
    · rw [cut, map_cons, hlength, length_take, Nat.min_eq_left (by omega)]
    · rw [cut, flatten_cons, hflatten, take_append_drop]

theorem le_foldl_max (sizes : List ℕ) (start : ℕ) :
    start ≤ sizes.foldl max start ∧ ∀ size ∈ sizes, size ≤ sizes.foldl max start := by
  induction sizes generalizing start with
  | nil => exact ⟨le_rfl, nofun⟩
  | cons first sizes ih =>
    obtain ⟨hstart, hsizes⟩ := ih (max start first)
    refine ⟨le_trans (le_max_left start first) hstart, fun size hsize => ?_⟩
    rcases mem_cons.1 hsize with rfl | hsize
    · exact le_trans (le_max_right start size) hstart
    · exact hsizes size hsize

variable {codewords : List UInt8}

theorem length_cut_le (h : codewords.length = capacity version) :
    ∀ block ∈ cut codewords (sizesFor version),
      block.length ≤ (sizesFor version).foldl max 0 := by
  intro block hblock
  have hlengths := (cut_spec (sizesFor version) (h.trans (capacity_eq_sum version))).1
  have hmem : block.length ∈ sizesFor version := by
    rw [← hlengths]
    exact mem_map_of_mem hblock
  exact (le_foldl_max (sizesFor version) 0).2 _ hmem

theorem interleave_eq (hec : ∀ block : List UInt8,
      (remainder block (ecFor version)).length = ecFor version) (codewords : List UInt8) :
    interleave codewords version =
      columns (cut codewords (sizesFor version)) ((sizesFor version).foldl max 0) ++
        columns ((cut codewords (sizesFor version)).map fun block =>
          remainder block (ecFor version)) (ecFor version) := by
  rw [interleave]
  congr 1
  refine flatMap_congr fun index hindex => ?_
  rw [← filterMap_eq_map]
  refine filterMap_congr fun block hblock => ?_
  obtain ⟨data, -, rfl⟩ := mem_map.1 hblock
  have hlt : index < (remainder data (ecFor version)).length := by
    rw [hec]
    exact mem_range.1 hindex
  simp [hlt]

section

variable (hversion : 1 ≤ version ∧ version ≤ 10)
include hversion

theorem ecFor_pos :
    0 < ecFor version ∧ ecFor version ≤ 512 := by
  obtain ⟨hlow, hhigh⟩ := hversion
  interval_cases version <;> decide

theorem length_remainder (block : List UInt8) :
    (remainder block (ecFor version)).length = ecFor version :=
  (rootsProduct_dvd (ecFor_pos hversion).2 (ecFor_pos hversion).1 block).1

theorem dealData_interleave (h : codewords.length = capacity version) (rest : List UInt8) :
    dealData version (interleave codewords version ++ rest) =
      cut codewords (sizesFor version) := by
  have hlengths := (cut_spec (sizesFor version) (h.trans (capacity_eq_sum version))).1
  have hdeal := deal_columns (length_cut_le h)
    (columns ((cut codewords (sizesFor version)).map fun block =>
      remainder block (ecFor version)) (ecFor version) ++ rest)
  rw [hlengths, ← length_map List.length, hlengths] at hdeal
  rw [dealData, interleave_eq (length_remainder hversion), append_assoc]
  exact hdeal

theorem map_length_parity (h : codewords.length = capacity version) :
    ((cut codewords (sizesFor version)).map fun block =>
      remainder block (ecFor version)).map List.length =
        List.replicate (sizesFor version).length (ecFor version) := by
  have hlengths := (cut_spec (sizesFor version) (h.trans (capacity_eq_sum version))).1
  rw [eq_replicate_iff]
  constructor
  · rw [length_map, length_map, ← length_map List.length, hlengths]
  · intro length hlength
    rw [map_map, mem_map] at hlength
    obtain ⟨block, -, rfl⟩ := hlength
    exact length_remainder hversion block

theorem length_parity_le (codewords : List UInt8) :
    ∀ block ∈ (cut codewords (sizesFor version)).map fun block => remainder block (ecFor version),
      block.length ≤ ecFor version := by
  intro block hblock
  obtain ⟨data, -, rfl⟩ := mem_map.1 hblock
  exact (length_remainder hversion data).le

theorem dealParity_interleave (h : codewords.length = capacity version) (rest : List UInt8) :
    dealParity version (interleave codewords version ++ rest) =
      (cut codewords (sizesFor version)).map fun block => remainder block (ecFor version) := by
  have hlengths := (cut_spec (sizesFor version) (h.trans (capacity_eq_sum version))).1
  have hparity := map_length_parity hversion h
  have hdeal := deal_columns (length_parity_le hversion codewords) rest
  have hdata : (columns (cut codewords (sizesFor version))
      ((sizesFor version).foldl max 0)).length = capacity version := by
    rw [length_columns (length_cut_le h), hlengths, capacity_eq_sum]
  rw [hparity, ← length_map List.length, hparity] at hdeal
  rw [dealParity, interleave_eq (length_remainder hversion), append_assoc,
    drop_left' hdata]
  exact hdeal

theorem length_interleave (h : codewords.length = capacity version) :
    (interleave codewords version).length =
      capacity version + (sizesFor version).length * ecFor version := by
  have hlengths := (cut_spec (sizesFor version) (h.trans (capacity_eq_sum version))).1
  rw [interleave_eq (length_remainder hversion), length_append,
    length_columns (length_cut_le h), length_columns (length_parity_le hversion codewords),
    map_length_parity hversion h, hlengths, capacity_eq_sum, sum_replicate, smul_eq_mul]

end

end Blocks

end Qr
