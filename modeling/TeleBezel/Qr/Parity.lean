import Mathlib.RingTheory.AdjoinRoot
import TeleBezel.Lib.BinaryPoly
import TeleBezel.Lib.ReedSolomon

/-!
# The parity of a block

Bytes are the elements of the field of polynomials over two elements modulo `0x11d`. The encoder
multiplies through tables of powers and logarithms, builds the generator of a degree from its
roots and divides a block of data by it.
-/

open Polynomial BinaryPoly ReedSolomon List

namespace Qr

/-- The next power: the byte moved left by one, reduced by `0x11d`. -/
def double (value : ℕ) : ℕ :=
  let value := value <<< 1
  if value &&& 0x100 = 0 then value else value ^^^ 0x11d

/-- The tables of the field while they are filled. -/
structure Tables where
  exp : List UInt8
  log : List UInt8
  value : ℕ

/-- One power of two. -/
def Tables.fill (tables : Tables) (index : ℕ) : Tables where
  exp := tables.exp.set index (UInt8.ofNat tables.value)
  log := tables.log.set tables.value (UInt8.ofNat index)
  value := double tables.value

/-- The empty tables. -/
def Tables.start : Tables := ⟨List.replicate 512 0, List.replicate 256 0, 1⟩

/-- The tables of `build`. -/
def tables : Tables := (List.range 255).foldl Tables.fill Tables.start

/-- The powers of the root. The second half repeats the first, so that the sum of two logarithms
needs no reduction. -/
def exp : List UInt8 :=
  (List.range' 255 257).foldl (fun exp index => exp.set index (exp.getD (index - 255) 0)) tables.exp

/-- `LOG`. -/
def log : List UInt8 := tables.log

/-- The product in the field, by the tables. -/
def multiply (left right : UInt8) : UInt8 :=
  if left = 0 ∨ right = 0 then 0
  else exp.getD ((log.getD left.toNat 0).toNat + (log.getD right.toNat 0).toNat) 0

variable (poly : List UInt8)

/-- One more root of the generator. -/
def generatorStep (index : ℕ) : List UInt8 :=
  (List.range poly.length).foldl
    (fun next position =>
      (next.modify position (· ^^^ poly.getD position 0)).modify (position + 1)
        (· ^^^ multiply (poly.getD position 0) (exp.getD index 0)))
    (List.replicate (poly.length + 1) 0)

/-- The generator polynomial of a degree. -/
def generator (degree : ℕ) : List UInt8 :=
  (List.range degree).foldl generatorStep [1]

/-- One byte of the division. -/
def remainderStep (degree : ℕ) (result : List UInt8) (byte : UInt8) :
    List UInt8 :=
  let factor := byte ^^^ result.getD 0 0
  (List.range degree).foldl
    (fun result index => result.modify index (· ^^^ multiply (poly.getD (index + 1) 0) factor))
    (result.tail ++ [0])

/-- The parity of a block. -/
def remainder (data : List UInt8) (degree : ℕ) : List UInt8 :=
  data.foldl (remainderStep (generator degree) degree) (List.replicate degree 0)

section Element

/-- The field of 256 elements, as polynomials over two elements modulo `0x11d`. -/
abbrev GF256 : Type := AdjoinRoot (binaryPoly 0x11d)

/-- The element two of the field. -/
noncomputable def root : GF256 := AdjoinRoot.root (binaryPoly 0x11d)

/-- The element of a number. -/
noncomputable def residue (n : ℕ) : GF256 := AdjoinRoot.mk (binaryPoly 0x11d) (binaryPoly n)

/-- The element of a byte. -/
noncomputable def element (byte : UInt8) : GF256 := residue byte.toNat

theorem residue_xor (a b : ℕ) : residue (a ^^^ b) = residue a + residue b := by
  rw [residue, binaryPoly_xor, map_add, residue, residue]

theorem element_xor (a b : UInt8) : element (a ^^^ b) = element a + element b := by
  rw [element, UInt8.toNat_xor, residue_xor, element, element]

theorem element_zero : element 0 = 0 := by
  rw [element, residue, UInt8.toNat_zero, binaryPoly_zero, map_zero]

theorem residue_one : residue 1 = 1 := by
  rw [residue, binaryPoly_one, map_one]

theorem gf256_add_self (x : GF256) : x + x = 0 := by
  induction x using AdjoinRoot.induction_on with
  | ih p => rw [← map_add, add_self_zmod_two, map_zero]

theorem residue_double (value : ℕ) : residue (double value) = residue value * root := by
  have hshift : residue (value <<< 1) = residue value * root := by
    rw [residue, binaryPoly_shiftLeft, pow_one, map_mul, AdjoinRoot.mk_X, residue, root]
  have hmodulus : residue 0x11d = 0 := AdjoinRoot.mk_self
  rw [double]
  split_ifs
  · exact hshift
  · rw [residue_xor, hmodulus, add_zero, hshift]

end Element

section Powers

variable (n : ℕ)

/-- A power of two, as bits. -/
def power : ℕ := double^[n] 1

theorem power_succ : power (n + 1) = double (power n) :=
  Function.iterate_succ_apply' double n 1

theorem residue_power : residue (power n) = root ^ n := by
  induction n with
  | zero => rw [pow_zero]; exact residue_one
  | succ n ih => rw [power_succ, residue_double, ih, pow_succ]

theorem double_lt {value : ℕ} (h : value < 256) : double value < 256 := by
  have hall : ∀ v < 256, double v < 256 := by decide +kernel
  exact hall value h

theorem power_lt : power n < 256 := by
  induction n with
  | zero => decide
  | succ n ih => rw [power_succ]; exact double_lt ih

theorem element_ofNat_power : element (UInt8.ofNat (power n)) = root ^ n := by
  rw [element, UInt8.toNat_ofNat_of_lt' (power_lt n), residue_power]

theorem root_pow_255 : root ^ 255 = 1 := by
  have hcycle : power 255 = 1 := by decide +kernel
  rw [← residue_power, hcycle, residue_one]

/-- A set of numbers, as bits. -/
def marks (numbers : List ℕ) : ℕ := numbers.foldr (fun a marked => marked ||| 1 <<< a) 0

theorem testBit_marks (numbers : List ℕ) (a : ℕ) :
    (marks numbers).testBit a = true ↔ a ∈ numbers := by
  induction numbers with
  | nil => simp [marks]
  | cons b numbers ih =>
    rw [marks, foldr_cons, Nat.testBit_or, Bool.or_eq_true, mem_cons, ← marks, ih,
      Nat.one_shiftLeft, Nat.testBit_two_pow]
    simp [or_comm, eq_comm]

theorem exists_power {a : ℕ} (ha : a < 256) (hzero : a ≠ 0) : ∃ n < 255, power n = a := by
  have hmarks : marks ((List.range 255).map power) = 2 ^ 256 - 2 := by decide +kernel
  have hall : ∀ a < 256, a ≠ 0 → (2 ^ 256 - 2).testBit a = true := by decide +kernel
  have hmem := (testBit_marks _ a).1 (hmarks ▸ hall a ha hzero)
  obtain ⟨n, hn, rfl⟩ := mem_map.1 hmem
  exact ⟨n, mem_range.1 hn, rfl⟩

end Powers

section Tables

/-- The tables after `n` rounds. A logarithm leads back to the power it was stored for, also if
another round had stored it again. -/
structure Tables.Filled (n : ℕ) (tables : Tables) : Prop where
  value : tables.value = power n
  expLength : tables.exp.length = 512
  logLength : tables.log.length = 256
  exp : ∀ i < n, tables.exp.getD i 0 = UInt8.ofNat (power i)
  log : ∀ i < n, ∃ j < n, tables.log.getD (power i) 0 = UInt8.ofNat j ∧ power j = power i

theorem Tables.Filled.fill {tables : Tables} {n : ℕ} (h : tables.Filled n) (hn : n < 255) :
    (tables.fill n).Filled (n + 1) where
  value := by rw [power_succ, ← h.value]; rfl
  expLength := by rw [Tables.fill, length_set, h.expLength]
  logLength := by rw [Tables.fill, length_set, h.logLength]
  exp := by
    intro i hi
    rw [Tables.fill, getD_eq_getElem?_getD, List.getElem?_set, h.value]
    by_cases heq : n = i
    · subst heq
      rw [if_pos rfl, if_pos (by rw [h.expLength]; omega), Option.getD_some]
    · rw [if_neg heq, ← getD_eq_getElem?_getD, h.exp i (by omega)]
  log := by
    intro i hi
    rw [Tables.fill, getD_eq_getElem?_getD, List.getElem?_set, h.value]
    by_cases heq : power n = power i
    · refine ⟨n, Nat.lt_succ_self n, ?_, heq⟩
      rw [if_pos heq, if_pos (by rw [h.logLength]; exact power_lt n), Option.getD_some]
    · have hlt : i < n := by
        rcases Nat.lt_succ_iff_lt_or_eq.1 hi with hlt | rfl
        · exact hlt
        · exact absurd rfl heq
      obtain ⟨j, hj, hlog, hpower⟩ := h.log i hlt
      refine ⟨j, by omega, ?_, hpower⟩
      rw [if_neg heq, ← getD_eq_getElem?_getD, hlog]

theorem tables_filled : tables.Filled 255 := by
  have hrun (n : ℕ) (hn : n ≤ 255) :
      ((List.range n).foldl Tables.fill Tables.start).Filled n := by
    induction n with
    | zero => exact ⟨rfl, length_replicate .., length_replicate .., nofun, nofun⟩
    | succ n ih =>
      rw [range_succ, foldl_append, foldl_cons, foldl_nil]
      exact (ih (by omega)).fill (by omega)
  exact hrun 255 le_rfl

theorem element_exp {i : ℕ} (hi : i < 512) : element (exp.getD i 0) = root ^ i := by
  -- the second loop reads what the first or an earlier round of it has stored
  have hrun (n : ℕ) (hn : n ≤ 257) :
      let table := (List.range' 255 n).foldl
        (fun exp index => exp.set index (exp.getD (index - 255) 0)) tables.exp
      table.length = 512 ∧ ∀ i < 255 + n, element (table.getD i 0) = root ^ i := by
    induction n with
    | zero =>
      refine ⟨tables_filled.expLength, fun i hi => ?_⟩
      rw [range'_zero, foldl_nil, tables_filled.exp i (by omega), element_ofNat_power]
    | succ n ih =>
      obtain ⟨hlength, htable⟩ := ih (by omega)
      rw [range'_1_concat, foldl_append, foldl_cons, foldl_nil]
      refine ⟨by rw [length_set, hlength], fun i hi => ?_⟩
      rw [getD_eq_getElem?_getD, List.getElem?_set]
      by_cases heq : 255 + n = i
      · rw [if_pos heq, if_pos (by rw [hlength]; omega), Option.getD_some,
          htable _ (by omega), ← heq, Nat.add_sub_cancel_left, pow_add, root_pow_255, one_mul]
      · rw [if_neg heq, ← getD_eq_getElem?_getD, htable i (by omega)]
  exact (hrun 257 le_rfl).2 i hi

theorem element_log {byte : UInt8} (hzero : byte ≠ 0) :
    (log.getD byte.toNat 0).toNat < 255 ∧ root ^ (log.getD byte.toNat 0).toNat = element byte := by
  have hne : byte.toNat ≠ 0 := fun h => hzero (UInt8.toNat_inj.1 h)
  obtain ⟨n, hn, hpower⟩ := exists_power byte.toNat_lt hne
  obtain ⟨j, hj, hlog, hpower'⟩ := tables_filled.log n hn
  have hvalue : (log.getD byte.toNat 0).toNat = j := by
    rw [← hpower, log, hlog, UInt8.toNat_ofNat_of_lt' (lt_trans hj (by decide))]
  rw [hvalue]
  refine ⟨hj, ?_⟩
  rw [element, ← hpower, ← hpower', residue_power]

theorem element_multiply (left right : UInt8) :
    element (multiply left right) = element left * element right := by
  rw [multiply]
  split_ifs with hzero
  · rcases hzero with rfl | rfl
    · rw [element_zero, zero_mul]
    · rw [element_zero, mul_zero]
  · rw [not_or] at hzero
    obtain ⟨hleft, hleft'⟩ := element_log hzero.1
    obtain ⟨hright, hright'⟩ := element_log hzero.2
    rw [element_exp (by omega), pow_add, hleft', hright']

end Tables

section Generator

theorem element_one : element 1 = 1 := residue_one

theorem generatorStep_spec {index : ℕ} (hindex : index < 512) :
    (generatorStep poly index).length = poly.length + 1 ∧
      highFirst ((generatorStep poly index).map element) =
        highFirst (poly.map element) * (X + C (root ^ index)) := by
  -- each coefficient of the polynomial is added at two places of the product
  have hround : ∀ position < poly.length, ∀ next : List UInt8, next.length = poly.length + 1 →
      ((next.modify position (· ^^^ poly.getD position 0)).modify (position + 1)
        (· ^^^ multiply (poly.getD position 0) (exp.getD index 0))).length = poly.length + 1 ∧
      highFirst (((next.modify position (· ^^^ poly.getD position 0)).modify (position + 1)
        (· ^^^ multiply (poly.getD position 0) (exp.getD index 0))).map element) =
        highFirst (next.map element) +
          C (element (poly.getD position 0)) * X ^ (poly.length - (position + 1)) *
            (X + C (root ^ index)) := by
    intro position hposition next hnext
    refine ⟨by rw [length_modify, length_modify, hnext], ?_⟩
    rw [highFirst_modify element (fun b => element_xor b _) _
        (by rw [length_modify, hnext]; omega),
      highFirst_modify element (fun b => element_xor b _) _ (by rw [hnext]; omega),
      length_modify, hnext, element_multiply, element_exp hindex, C_mul,
      Nat.add_sub_add_right, Nat.add_sub_add_right,
      show poly.length - position = poly.length - (position + 1) + 1 by omega, pow_succ]
    ring
  obtain ⟨hlength, hvalue⟩ := highFirst_foldl element hround (length_replicate ..)
  refine ⟨hlength, ?_⟩
  rw [generatorStep, hvalue, map_replicate, element_zero, highFirst_replicate_zero, zero_add,
    highFirst_eq_sum, Finset.sum_mul, length_map]
  refine Finset.sum_congr rfl fun position _ => ?_
  rw [← element_zero, getD_map]

theorem generator_succ (degree : ℕ) :
    generator (degree + 1) = generatorStep (generator degree) degree := by
  rw [generator, range_succ, foldl_append, foldl_cons, foldl_nil, generator]

theorem highFirst_generator {degree : ℕ} (hdegree : degree ≤ 512) :
    (generator degree).length = degree + 1 ∧
      highFirst ((generator degree).map element) = rootsProduct root degree := by
  induction degree with
  | zero =>
    refine ⟨rfl, ?_⟩
    simp [generator, highFirst_cons, rootsProduct, element_one]
  | succ degree ih =>
    obtain ⟨hlength, hvalue⟩ := ih (by omega)
    obtain ⟨hlength', hvalue'⟩ := generatorStep_spec (generator degree) (by omega : degree < 512)
    rw [generator_succ]
    refine ⟨by rw [hlength', hlength], ?_⟩
    rw [hvalue', hvalue, rootsProduct, rootsProduct, Finset.prod_range_succ]

theorem head_generatorStep {poly : List UInt8} (hpoly : 0 < poly.length) (index : ℕ) :
    (generatorStep poly index).getD 0 0 = poly.getD 0 0 := by
  have hrun (n : ℕ) : ((List.range n).foldl
      (fun next position =>
        (next.modify position (· ^^^ poly.getD position 0)).modify (position + 1)
          (· ^^^ multiply (poly.getD position 0) (exp.getD index 0)))
      (List.replicate (poly.length + 1) 0)).head? = some (if n = 0 then 0 else poly.getD 0 0) := by
    induction n with
    | zero => rfl
    | succ n ih =>
      rw [range_succ, foldl_append, foldl_cons, foldl_nil,
        List.head?_eq_getElem?, List.getElem?_modify, List.getElem?_modify,
        ← List.head?_eq_getElem?, ih]
      cases n <;> simp
  rw [getD_eq_getElem?_getD, ← List.head?_eq_getElem?, generatorStep, hrun,
    if_neg (Nat.pos_iff_ne_zero.1 hpoly), Option.getD_some]

theorem head_generator {degree : ℕ} (hdegree : degree ≤ 512) :
    (generator degree).getD 0 0 = 1 := by
  induction degree with
  | zero => rfl
  | succ degree ih =>
    rw [generator_succ, head_generatorStep, ih (by omega)]
    rw [(highFirst_generator (by omega)).1]
    omega

theorem rootsProduct_eq {degree : ℕ} (hdegree : degree ≤ 512) :
    rootsProduct root degree =
      X ^ degree + highFirst ((generator degree).tail.map element) := by
  obtain ⟨hlength, hvalue⟩ := highFirst_generator hdegree
  have hhead := head_generator hdegree
  rw [← hvalue]
  cases hg : generator degree with
  | nil => rw [hg] at hlength; exact absurd hlength (by simp)
  | cons c tail =>
    rw [hg] at hlength hhead
    have hone : c = 1 := hhead
    have htail : tail.length = degree := Nat.succ.inj hlength
    rw [map_cons, highFirst_cons, length_map, htail, hone, element_one, C_1, one_mul,
      tail_cons]

end Generator

section Remainder

variable {degree : ℕ}

theorem remainderStep_spec (hdegree : degree ≤ 512) (hpos : 0 < degree) {result : List UInt8}
    (hresult : result.length = degree) (byte : UInt8) :
    (remainderStep (generator degree) degree result byte).length = degree ∧
      highFirst ((remainderStep (generator degree) degree result byte).map element) +
          C (element (byte ^^^ result.getD 0 0)) * X ^ degree =
        highFirst (result.map element) * X + C (element byte) * X ^ degree +
          C (element (byte ^^^ result.getD 0 0)) *
            highFirst ((generator degree).tail.map element) := by
  obtain ⟨hlength, -⟩ := highFirst_generator hdegree
  set factor := byte ^^^ result.getD 0 0
  have hround : ∀ index < degree, ∀ word : List UInt8, word.length = degree →
      (word.modify index
        (· ^^^ multiply ((generator degree).getD (index + 1) 0) factor)).length = degree ∧
      highFirst ((word.modify index
        (· ^^^ multiply ((generator degree).getD (index + 1) 0) factor)).map element) =
        highFirst (word.map element) + C (element factor) *
          (C (element ((generator degree).getD (index + 1) 0)) * X ^ (degree - (index + 1))) := by
    intro index hindex word hword
    refine ⟨by rw [length_modify, hword], ?_⟩
    rw [highFirst_modify element (fun b => element_xor b _) _ (by omega), hword, element_multiply,
      C_mul]
    ring
  cases result with
  | nil => exact absurd hresult (by simpa using hpos.ne)
  | cons first rest =>
    have hrest : (rest ++ [0]).length = degree := by
      rw [length_append]
      exact hresult
    obtain ⟨hlength', hvalue⟩ := highFirst_foldl element hround hrest
    refine ⟨hlength', ?_⟩
    have hsum : ∑ index ∈ Finset.range degree, C (element factor) *
        (C (element ((generator degree).getD (index + 1) 0)) * X ^ (degree - (index + 1))) =
        C (element factor) * highFirst ((generator degree).tail.map element) := by
      rw [← Finset.mul_sum, highFirst_eq_sum, length_map, length_tail, hlength,
        Nat.add_sub_cancel]
      congr 1
      refine Finset.sum_congr rfl fun index _ => ?_
      rw [← element_zero, getD_map, getD_eq_getElem?_getD, getD_eq_getElem?_getD,
        List.getElem?_tail]
    have hfactor : element factor = element byte + element first := element_xor byte first
    have hdegree' : degree = rest.length + 1 := hresult.symm
    rw [remainderStep, tail_cons, hvalue, hsum, map_append, highFirst_append,
      map_cons, highFirst_cons, hfactor, C_add, hdegree', pow_succ]
    simp only [map_cons, map_nil, length_map, length_singleton, pow_one,
      highFirst_cons, highFirst_nil, element_zero, C_0, zero_mul, add_zero]
    ring

theorem rootsProduct_dvd (hdegree : degree ≤ 512) (hpos : 0 < degree) (data : List UInt8) :
    (remainder data degree).length = degree ∧
      rootsProduct root degree ∣ highFirst ((data ++ remainder data degree).map element) := by
  -- the register stays congruent to what has been shifted in
  have hrun : (remainder data degree).length = degree ∧ rootsProduct root degree ∣
      highFirst (data.map element) * X ^ degree +
        highFirst ((remainder data degree).map element) := by
    induction data using List.reverseRecOn with
    | nil =>
      refine ⟨length_replicate .., ?_⟩
      rw [remainder, foldl_nil, map_replicate, element_zero, highFirst_replicate_zero,
        map_nil, highFirst_nil, zero_mul, zero_add]
      exact dvd_zero _
    | append_singleton data byte ih =>
      have hstep : remainder (data ++ [byte]) degree =
          remainderStep (generator degree) degree (remainder data degree) byte := by
        rw [remainder, foldl_append, foldl_cons, foldl_nil, remainder]
      obtain ⟨hlength, hvalue⟩ := remainderStep_spec hdegree hpos ih.1 byte
      rw [hstep]
      refine ⟨hlength, ?_⟩
      have hshift := dvd_shift gf256_add_self (rootsProduct_eq hdegree) hvalue ih.2
      rw [map_append, highFirst_append, map_singleton]
      simpa [highFirst_cons] using hshift
  refine ⟨hrun.1, ?_⟩
  rw [map_append, highFirst_append, length_map, hrun.1]
  exact hrun.2

end Remainder

end Qr
