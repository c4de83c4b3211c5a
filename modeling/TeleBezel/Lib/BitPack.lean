import Mathlib.Data.Nat.Bitwise
import Mathlib.Data.List.Induction
import Mathlib.Tactic.IntervalCases
import Mathlib.Tactic.Ring

/-!
# Fields of a few bits packed into bytes

Values of `bits` bits, `bits` a divisor of eight, stored one after the other in a list of bytes,
the first in the most significant bits of the first byte. Each is written by an `or`, so that it
has to meet cleared bits.
-/

open List

namespace BitPack

/-- A value written as the field `index`. -/
def put (bits : ℕ) (bytes : List UInt8) (index : ℕ) (value : UInt8) : List UInt8 :=
  bytes.modify ((index * bits) >>> 3) (· ||| value <<< UInt8.ofNat (8 - bits - index * bits % 8))

/-- The value of the field `index`. -/
def field (bits : ℕ) (bytes : List UInt8) (index : ℕ) : ℕ :=
  ((bytes.getD ((index * bits) >>> 3) 0).toNat >>> (8 - bits - index * bits % 8)) % 2 ^ bits

/-- Values written as the fields `0`, `1`, .... -/
def putAll (bits : ℕ) (bytes : List UInt8) (values : List UInt8) : List UInt8 :=
  values.zipIdx.foldl (fun bytes' v => put bits bytes' v.2 v.1) bytes

@[simp] theorem length_put (bits : ℕ) (bytes : List UInt8) (index : ℕ) (value : UInt8) :
    (put bits bytes index value).length = bytes.length := by
  simp [put]

theorem putAll_snoc (bits : ℕ) (bytes values : List UInt8) (value : UInt8) :
    putAll bits bytes (values ++ [value]) =
      put bits (putAll bits bytes values) values.length value := by
  simp [putAll, zipIdx_append]

@[simp] theorem length_putAll (bits : ℕ) (bytes values : List UInt8) :
    (putAll bits bytes values).length = bytes.length := by
  induction values using List.reverseRecOn with
  | nil => rfl
  | append_singleton values value ih => rw [putAll_snoc, length_put, ih]

theorem dvd_eight {bits : ℕ} (h : bits ∣ 8) : bits = 1 ∨ bits = 2 ∨ bits = 4 ∨ bits = 8 := by
  have hle : bits ≤ 8 := Nat.le_of_dvd (by decide) h
  interval_cases bits <;> simp_all

theorem disjoint_of_ne {bits i j : ℕ} (h : bits ∣ 8) (hne : i ≠ j)
    (hbyte : (i * bits) >>> 3 = (j * bits) >>> 3) :
    8 - bits - i * bits % 8 + bits ≤ 8 - bits - j * bits % 8 ∨
      8 - bits - j * bits % 8 + bits ≤ 8 - bits - i * bits % 8 := by
  rcases dvd_eight h with rfl | rfl | rfl | rfl <;> omega

theorem offset_lt {bits i : ℕ} (h : bits ∣ 8) : 8 - bits - i * bits % 8 + bits ≤ 8 := by
  have := Nat.le_of_dvd (by decide) h
  omega

theorem testBit_or_shiftLeft (byte value : UInt8) {offset k : ℕ} (ho : offset < 8) (hk : k < 8) :
    (byte ||| value <<< UInt8.ofNat offset).toNat.testBit k =
      (byte.toNat.testBit k || (decide (offset ≤ k) && value.toNat.testBit (k - offset))) := by
  have hoff : (UInt8.ofNat offset).toNat % 8 = offset := by
    simp
    omega
  rw [UInt8.toNat_or, UInt8.toNat_shiftLeft, hoff, Nat.testBit_or, Nat.testBit_mod_two_pow,
    Nat.testBit_shiftLeft]
  simp [hk]

theorem testBit_eq_false_of_le {value bits k : ℕ} (hv : value < 2 ^ bits) (hk : bits ≤ k) :
    value.testBit k = false :=
  Nat.testBit_lt_two_pow (hv.trans_le (Nat.pow_le_pow_right (by decide) hk))

section Put

variable {bits : ℕ} {bytes : List UInt8} {index : ℕ} {value : UInt8}

theorem getD_put_self (h : (index * bits) >>> 3 < bytes.length) :
    (put bits bytes index value).getD ((index * bits) >>> 3) 0 =
      (bytes.getD ((index * bits) >>> 3) 0 |||
        value <<< UInt8.ofNat (8 - bits - index * bits % 8)) := by
  simp [put, List.getD, List.getElem?_eq_getElem h]

theorem getD_put_of_ne {k : ℕ} (h : (index * bits) >>> 3 ≠ k) :
    (put bits bytes index value).getD k 0 = bytes.getD k 0 := by
  simp [put, List.getD, h]

theorem field_put_self (hbits : bits ∣ 8) (hlt : (index * bits) >>> 3 < bytes.length)
    (hvalue : value.toNat < 2 ^ bits) (hclear : field bits bytes index = 0) :
    field bits (put bits bytes index value) index = value.toNat := by
  have hoff := offset_lt (i := index) hbits
  have hpos : 0 < bits := Nat.pos_of_dvd_of_pos hbits (by decide)
  unfold field at hclear ⊢
  rw [getD_put_self hlt]
  apply Nat.eq_of_testBit_eq
  intro k
  have hk := congrArg (fun n => n.testBit k) hclear
  simp only [Nat.testBit_mod_two_pow, Nat.testBit_shiftRight, Nat.zero_testBit] at hk ⊢
  by_cases hlt' : k < bits
  · simp only [hlt', decide_true, Bool.true_and] at hk ⊢
    rw [testBit_or_shiftLeft _ _ (by omega) (by omega), hk]
    simp
  · simp [hlt', testBit_eq_false_of_le hvalue (Nat.le_of_not_lt hlt')]

theorem field_put_of_ne {j : ℕ} (hbits : bits ∣ 8) (hlt : (index * bits) >>> 3 < bytes.length)
    (hvalue : value.toNat < 2 ^ bits) (hne : index ≠ j) :
    field bits (put bits bytes index value) j = field bits bytes j := by
  unfold field
  by_cases hbyte : (index * bits) >>> 3 = (j * bits) >>> 3
  · have hoff := offset_lt (i := index) hbits
    have hoff' := offset_lt (i := j) hbits
    have hpos : 0 < bits := Nat.pos_of_dvd_of_pos hbits (by decide)
    have hdisjoint := disjoint_of_ne hbits hne hbyte
    rw [← hbyte, getD_put_self hlt]
    apply Nat.eq_of_testBit_eq
    intro k
    simp only [Nat.testBit_mod_two_pow, Nat.testBit_shiftRight]
    by_cases hk : k < bits
    · rw [testBit_or_shiftLeft _ _ (by omega) (by omega)]
      rcases hdisjoint with hle | hle
      · rw [testBit_eq_false_of_le hvalue (by omega)]
        simp
      · have hnle : ¬ 8 - bits - index * bits % 8 ≤ 8 - bits - j * bits % 8 + k := by omega
        simp [hnle]
    · simp [hk]
  · rw [getD_put_of_ne hbyte]

end Put

theorem field_replicate_zero (bits n index : ℕ) : field bits (List.replicate n 0) index = 0 := by
  simp [field]

theorem field_putAll {bits n : ℕ} (hbits : bits ∣ 8) (values : List UInt8)
    (hvalues : ∀ value ∈ values, value.toNat < 2 ^ bits) (hroom : values.length * bits ≤ n * 8)
    (i : ℕ) :
    field bits (putAll bits (List.replicate n 0) values) i = (values.getD i 0).toNat := by
  have hpos : 0 < bits := Nat.pos_of_dvd_of_pos hbits (by decide)
  induction values using List.reverseRecOn generalizing i with
  | nil => simpa [putAll] using field_replicate_zero bits n i
  | append_singleton values value ih =>
    have hvalue : value.toNat < 2 ^ bits := hvalues value (by simp)
    have hprev := ih (fun v hv => hvalues v (by simp [hv]))
      (by rw [length_append, Nat.add_mul] at hroom; omega)
    have hlt : (values.length * bits) >>> 3 < (putAll bits (List.replicate n 0) values).length := by
      rw [length_putAll, length_replicate, Nat.shiftRight_eq_div_pow]
      rw [length_append, Nat.add_mul] at hroom
      simp only [length_singleton] at hroom
      omega
    rw [putAll_snoc]
    by_cases hi : values.length = i
    · subst hi
      rw [field_put_self hbits hlt hvalue (by rw [hprev]; simp)]
      simp
    · rw [field_put_of_ne hbits hlt hvalue hi, hprev]
      congr 1
      rcases Nat.lt_or_gt_of_ne hi with hlt' | hlt'
      · rw [getD_eq_default _ _ (by omega), getD_eq_default _ _ (by simp; omega)]
      · rw [getD_append _ _ _ _ hlt']

end BitPack
