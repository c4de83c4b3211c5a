import Mathlib.Tactic.Linarith
import Mathlib.Tactic.Ring

/-!
# Integer square roots

The classical integer square root finds one binary digit of the root at a time, from a power of
four down to zero. Both of its loops are given fuel: sixteen rounds serve every 32-bit value. Another
one corrects a guess, upwards and then downwards.
-/

namespace IntegerSqrt

/-- Divide `bit` by four while it exceeds `value`. -/
def shrink : ℕ → ℕ → ℕ → ℕ
  | 0, _, bit => bit
  | fuel + 1, value, bit => if value < bit then shrink fuel value (bit / 4) else bit

def digits : ℕ → ℕ → ℕ → ℕ → ℕ
  | 0, _, root, _ => root
  | fuel + 1, value, root, bit =>
    if bit = 0 then root
    else if root + bit ≤ value then digits fuel (value - (root + bit)) (root / 2 + bit) (bit / 4)
    else digits fuel value (root / 2) (bit / 4)

def isqrt (value : ℕ) : ℕ :=
  digits 16 value 0 (shrink 16 value (2 ^ 30))

theorem four_pow_succ_div (k : ℕ) : 4 ^ (k + 1) / 4 = 4 ^ k := by
  rw [pow_succ, Nat.mul_div_cancel _ (by norm_num)]

theorem exists_shrink_eq (value : ℕ) :
    ∀ k fuel, k ≤ fuel → value < 4 ^ k →
      ∃ j ≤ k, shrink fuel value (4 ^ k / 4) = 4 ^ j / 4 ∧ value < 4 ^ j := by
  intro k
  induction k with
  | zero =>
    intro fuel _ hv
    refine ⟨0, le_rfl, ?_, hv⟩
    cases fuel <;> simp [shrink]
  | succ k ih =>
    intro fuel hk hv
    obtain ⟨fuel, rfl⟩ : ∃ n, fuel = n + 1 := ⟨fuel - 1, by omega⟩
    rw [four_pow_succ_div]
    by_cases hlt : value < 4 ^ k
    · obtain ⟨j, hj, hs, hvj⟩ := ih fuel (by omega) hlt
      exact ⟨j, by omega, by simp [shrink, hlt, hs], hvj⟩
    · exact ⟨k + 1, le_rfl, by simp [shrink, hlt, four_pow_succ_div], hv⟩

/-- **The loop invariant.** With `r` the digits found so far, `root` is `r` and `value` is what
remains of `n` after taking their square away, both scaled by the current power of four. -/
theorem digits_eq_sqrt (n : ℕ) :
    ∀ k fuel value r, k ≤ fuel → value + r * r * 4 ^ k = n → n < (r + 1) * (r + 1) * 4 ^ k →
      digits fuel value (r * 4 ^ k) (4 ^ k / 4) = Nat.sqrt n := by
  intro k
  induction k with
  | zero =>
    intro fuel value r _ hn hlt
    have hr : r = Nat.sqrt n := Nat.eq_sqrt.mpr ⟨by omega, by simpa using hlt⟩
    cases fuel <;> simp [digits, hr]
  | succ k ih =>
    intro fuel value r hk hn hlt
    obtain ⟨fuel, rfl⟩ : ∃ m, fuel = m + 1 := ⟨fuel - 1, by omega⟩
    have hb : 0 < 4 ^ k := by positivity
    have hroot : r * 4 ^ (k + 1) / 2 = 2 * r * 4 ^ k := by
      rw [show r * 4 ^ (k + 1) = 2 * r * 4 ^ k * 2 by ring, Nat.mul_div_cancel _ (by norm_num)]
    have hq : r * 4 ^ (k + 1) = 4 * (r * 4 ^ k) := by ring
    have hn' : value + 4 * (r * r * 4 ^ k) = n := by rw [← hn]; ring
    rw [four_pow_succ_div]
    by_cases hle : r * 4 ^ (k + 1) + 4 ^ k ≤ value
    · have h := ih fuel (value - (r * 4 ^ (k + 1) + 4 ^ k)) (2 * r + 1) (by omega)
        (by
          have e : (2 * r + 1) * (2 * r + 1) * 4 ^ k =
              4 * (r * r * 4 ^ k) + (4 * (r * 4 ^ k) + 4 ^ k) := by ring
          rw [e]; omega)
        (by rw [show (2 * r + 1 + 1) * (2 * r + 1 + 1) * 4 ^ k = (r + 1) * (r + 1) * 4 ^ (k + 1) by ring]
            exact hlt)
      simp only [digits, hb.ne', if_false, hle, if_true, hroot]
      rw [← h]
      congr 1
      ring
    · have h := ih fuel value (2 * r) (by omega)
        (by rw [← hn']; ring)
        (by
          have e : (2 * r + 1) * (2 * r + 1) * 4 ^ k =
              4 * (r * r * 4 ^ k) + (4 * (r * 4 ^ k) + 4 ^ k) := by ring
          rw [e]; omega)
      simp only [digits, hb.ne', if_false, hle, hroot]
      exact h

theorem isqrt_eq_sqrt {value : ℕ} (h : value < 2 ^ 32) : isqrt value = Nat.sqrt value := by
  have hv : value < 4 ^ 16 := by simpa using h
  obtain ⟨j, hj, hs, hvj⟩ := exists_shrink_eq value 16 16 le_rfl hv
  have hbit : (2 : ℕ) ^ 30 = 4 ^ 16 / 4 := by norm_num
  have hd := digits_eq_sqrt value j 16 value 0 hj (by simp) (by simpa using hvj)
  rw [isqrt, hbit, hs]
  simpa using hd

def raise (value half : ℕ) : ℕ :=
  if (half + 1) * (half + 1) ≤ value then raise value (half + 1) else half
termination_by value - half
decreasing_by
  have hle : half + 1 ≤ (half + 1) * (half + 1) := Nat.le_mul_self _
  omega

def lower (value : ℕ) : ℕ → ℕ
  | 0 => 0
  | half + 1 => if value < (half + 1) * (half + 1) then lower value half else half + 1

theorem sqrt_le_raise (value half : ℕ) : Nat.sqrt value ≤ raise value half := by
  induction half using raise.induct value with
  | case1 half hle ih =>
    rw [raise, if_pos hle]
    exact ih
  | case2 half hlt =>
    rw [raise, if_neg hlt]
    exact Nat.lt_succ_iff.mp (Nat.sqrt_lt.mpr (Nat.lt_of_not_le hlt))

theorem lower_eq_sqrt {value half : ℕ} (h : Nat.sqrt value ≤ half) :
    lower value half = Nat.sqrt value := by
  induction half with
  | zero => exact (Nat.le_zero.mp h).symm
  | succ half ih =>
    rw [lower]
    split_ifs with hlt
    · exact ih (Nat.lt_succ_iff.mp (Nat.sqrt_lt.mpr hlt))
    · exact Nat.le_antisymm (Nat.le_sqrt.mpr (Nat.le_of_not_lt hlt)) h

theorem lower_raise (value guess : ℕ) : lower value (raise value guess) = Nat.sqrt value :=
  lower_eq_sqrt (sqrt_le_raise value guess)

end IntegerSqrt
