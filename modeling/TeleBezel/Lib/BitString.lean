import Mathlib.Data.List.Basic
import Mathlib.Data.List.Induction
import Mathlib.Tactic.IntervalCases
import Mathlib.Tactic.Ring

/-!
# Strings of bits

Values written as bits with the highest first, and bits read as a value or packed into bytes.
-/

open List

namespace BitString

def bitsOf : ℕ → ℕ → List Bool
  | 0, _ => []
  | length + 1, value => ((value >>> length) &&& 1 == 1) :: bitsOf length value

variable (bits : List Bool)

def valueOf : ℕ := bits.foldl (fun value bit => (value <<< 1) ||| bit.toNat) 0

def pack : List UInt8 :=
  (List.range (bits.length / 8)).map fun index =>
    UInt8.ofNat (valueOf ((bits.drop (8 * index)).take 8))

variable (bytes : List UInt8)

def unpack : List Bool := bytes.flatMap fun byte => bitsOf 8 byte.toNat

@[simp] theorem length_bitsOf (length value : ℕ) : (bitsOf length value).length = length := by
  induction length with
  | zero => rfl
  | succ length ih => rw [bitsOf, length_cons, ih]

theorem bitsOf_eq_map (length value : ℕ) :
    bitsOf length value = (List.range length).reverse.map fun i => (value >>> i) &&& 1 == 1 := by
  induction length with
  | zero => rfl
  | succ length ih =>
    rw [bitsOf, ih, range_succ, reverse_append, reverse_singleton,
      singleton_append, map_cons]

theorem shiftLeft_or_toNat (value : ℕ) (bit : Bool) :
    (value <<< 1) ||| bit.toNat = 2 * value + bit.toNat := by
  have hbit : bit.toNat < 2 ^ 1 := Bool.toNat_lt bit
  have h := Nat.two_pow_add_eq_or_of_lt hbit value
  rw [pow_one] at h
  rw [h, Nat.shiftLeft_eq, pow_one, Nat.mul_comm]

theorem valueOf_append (rest : List Bool) :
    valueOf (bits ++ rest) = valueOf bits * 2 ^ rest.length + valueOf rest := by
  induction rest using List.reverseRecOn with
  | nil => simp [valueOf]
  | append_singleton rest bit ih =>
    have hstep (bits : List Bool) : valueOf (bits ++ [bit]) = 2 * valueOf bits + bit.toNat := by
      rw [valueOf, foldl_append, foldl_cons, foldl_nil, shiftLeft_or_toNat, valueOf]
    rw [← append_assoc, hstep, ih, hstep, length_append, length_singleton,
      Nat.pow_succ]
    ring

theorem valueOf_singleton (bit : Bool) : valueOf [bit] = bit.toNat := by
  cases bit <;> rfl

theorem valueOf_bitsOf (length value : ℕ) : valueOf (bitsOf length value) = value % 2 ^ length := by
  induction length with
  | zero => rw [bitsOf, Nat.pow_zero, Nat.mod_one]; rfl
  | succ length ih =>
    rw [bitsOf, ← singleton_append, valueOf_append, ih, length_bitsOf, valueOf_singleton,
      Nat.mod_pow_succ, Nat.shiftRight_eq_div_pow, Nat.and_one_is_mod]
    have hbit : ((value / 2 ^ length % 2 == 1) : Bool).toNat = value / 2 ^ length % 2 := by
      rcases Nat.mod_two_eq_zero_or_one (value / 2 ^ length) with h | h <;> rw [h] <;> rfl
    rw [hbit]
    ring

theorem valueOf_lt : valueOf bits < 2 ^ bits.length := by
  induction bits with
  | nil => decide
  | cons bit bits ih =>
    rw [← singleton_append, valueOf_append, valueOf_singleton, length_append,
      length_singleton, Nat.pow_add, pow_one]
    have hbit : bit.toNat ≤ 1 := Bool.toNat_le bit
    have := Nat.mul_le_mul_right (2 ^ bits.length) hbit
    omega

theorem bitsOf_valueOf : bitsOf bits.length (valueOf bits) = bits := by
  have haux (rest : List Bool) (high : ℕ) :
      bitsOf rest.length (high * 2 ^ rest.length + valueOf rest) = rest := by
    induction rest generalizing high with
    | nil => rfl
    | cons bit rest ih =>
      have hvalue : high * 2 ^ (bit :: rest).length + valueOf (bit :: rest) =
          (2 * high + bit.toNat) * 2 ^ rest.length + valueOf rest := by
        rw [← singleton_append, valueOf_append, valueOf_singleton, length_append,
          length_singleton, Nat.pow_add]
        ring
      rw [hvalue, length_cons, bitsOf, ih, Nat.shiftRight_eq_div_pow, Nat.and_one_is_mod,
        Nat.mul_comm, Nat.mul_add_div (Nat.two_pow_pos _), Nat.div_eq_of_lt (valueOf_lt rest)]
      congr 1
      cases bit <;> simp
  simpa using haux bits 0

theorem pack_append {group : List Bool} (hgroup : group.length = 8) (rest : List Bool) :
    pack (group ++ rest) = UInt8.ofNat (valueOf group) :: pack rest := by
  have hlength : (group ++ rest).length / 8 = rest.length / 8 + 1 := by
    rw [length_append, hgroup]
    omega
  rw [pack, hlength, range_succ_eq_map, map_cons, map_map]
  congr 1
  · rw [Nat.mul_zero, drop_zero, ← hgroup, take_left]
  · refine map_congr_left fun index _ => ?_
    have hdrop : (group ++ rest).drop (8 * (index + 1)) = rest.drop (8 * index) := by
      rw [Nat.mul_add, Nat.mul_one, Nat.add_comm, ← hgroup, drop_length_add_append]
    simp only [Function.comp_apply, Nat.succ_eq_add_one, hdrop]

theorem pack_unpack_append (rest : List Bool) :
    pack (unpack bytes ++ rest) = bytes ++ pack rest := by
  induction bytes with
  | nil => rfl
  | cons byte bytes ih =>
    rw [unpack, flatMap_cons, ← unpack, append_assoc, pack_append (length_bitsOf 8 _), ih,
      valueOf_bitsOf, Nat.mod_eq_of_lt byte.toNat_lt, UInt8.ofNat_toNat, cons_append]

theorem pack_unpack : pack (unpack bytes) = bytes := by
  have h := pack_unpack_append bytes []
  rwa [append_nil, show pack [] = [] from rfl, append_nil] at h

theorem unpack_append (rest : List UInt8) :
    unpack (bytes ++ rest) = unpack bytes ++ unpack rest := flatMap_append

@[simp] theorem length_unpack : (unpack bytes).length = 8 * bytes.length := by
  induction bytes with
  | nil => rfl
  | cons byte bytes ih =>
    rw [unpack, flatMap_cons, ← unpack, length_append, length_bitsOf, ih,
      length_cons]
    ring

theorem unpack_pack {count : ℕ} {bits : List Bool} (h : bits.length = 8 * count) :
    unpack (pack bits) = bits := by
  induction count generalizing bits with
  | zero =>
    rw [eq_nil_of_length_eq_zero h]
    rfl
  | succ count ih =>
    obtain ⟨group, rest, hgroup, rfl⟩ : ∃ group rest, group.length = 8 ∧ bits = group ++ rest :=
      ⟨bits.take 8, bits.drop 8, by rw [length_take]; omega, (take_append_drop 8 bits).symm⟩
    have hrest : rest.length = 8 * count := by
      rw [length_append] at h
      omega
    have hlt : valueOf group < 256 := by
      have := valueOf_lt group
      rwa [hgroup] at this
    rw [pack_append hgroup, unpack, flatMap_cons, ← unpack, ih hrest,
      UInt8.toNat_ofNat_of_lt' hlt]
    congr 1
    rw [← hgroup, bitsOf_valueOf]

theorem getElem?_unpack (k : ℕ) :
    (unpack bytes)[k]? =
      bytes[k / 8]?.map fun byte => (byte.toNat >>> (7 - k % 8)) &&& 1 == 1 := by
  induction bytes generalizing k with
  | nil => rfl
  | cons byte bytes ih =>
    rw [unpack, flatMap_cons, ← unpack, List.getElem?_append, length_bitsOf]
    split_ifs with hk
    · have hdiv : k / 8 = 0 := Nat.div_eq_of_lt hk
      rw [hdiv, Nat.mod_eq_of_lt hk, List.getElem?_cons_zero, Option.map_some]
      interval_cases k <;> rfl
    · have hdiv : k / 8 = (k - 8) / 8 + 1 := by omega
      have hmod : k % 8 = (k - 8) % 8 := by omega
      rw [ih, hdiv, hmod, List.getElem?_cons_succ]

end BitString
