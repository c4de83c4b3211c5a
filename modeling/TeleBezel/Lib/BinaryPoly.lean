import Mathlib.Algebra.Polynomial.Coeff
import Mathlib.Algebra.Field.ZMod
import Mathlib.Data.Nat.Bitwise

/-!
# Polynomials over two elements, written as numbers

The bits of a number are the coefficients of a polynomial over `ZMod 2`, the bit `i` that of
`X ^ i`. Exclusive or is addition, a shift to the left a product with a power of `X`.
-/

open Polynomial

namespace BinaryPoly

noncomputable def binaryPoly (n : ℕ) : (ZMod 2)[X] :=
  ∑ i ∈ Finset.range n, if n.testBit i then X ^ i else 0

theorem coeff_binaryPoly (n k : ℕ) : (binaryPoly n).coeff k = if n.testBit k then 1 else 0 := by
  have hterm (i : ℕ) : ((if n.testBit i then X ^ i else 0 : (ZMod 2)[X])).coeff k =
      if i = k then (if n.testBit k then 1 else 0) else 0 := by
    by_cases hik : i = k
    · subst hik
      by_cases hbit : n.testBit i <;> simp [hbit]
    · by_cases hbit : n.testBit i <;> simp [hbit, hik, coeff_X_pow, Ne.symm hik]
  rw [binaryPoly, finsetSum_coeff, Finset.sum_congr rfl fun i _ => hterm i,
    Finset.sum_ite_eq' (Finset.range n) k]
  by_cases hk : k ∈ Finset.range n
  · rw [if_pos hk]
  · -- a bit that is set is at an index below the number
    rw [if_neg hk, if_neg]
    intro hbit
    exact hk (Finset.mem_range.2 (lt_of_lt_of_le Nat.lt_two_pow_self (Nat.ge_two_pow_of_testBit hbit)))

theorem binaryPoly_zero : binaryPoly 0 = 0 := rfl

theorem binaryPoly_one : binaryPoly 1 = 1 := by
  ext k
  simp only [coeff_binaryPoly, coeff_one, Nat.testBit_one_eq_true_iff_self_eq_zero]

theorem binaryPoly_xor (a b : ℕ) : binaryPoly (a ^^^ b) = binaryPoly a + binaryPoly b := by
  ext k
  rw [coeff_add, coeff_binaryPoly, coeff_binaryPoly, coeff_binaryPoly, Nat.testBit_xor]
  cases a.testBit k <;> cases b.testBit k <;> decide

theorem binaryPoly_shiftLeft (a k : ℕ) : binaryPoly (a <<< k) = binaryPoly a * X ^ k := by
  ext i
  rw [coeff_mul_X_pow', coeff_binaryPoly, coeff_binaryPoly, Nat.testBit_shiftLeft]
  by_cases hk : k ≤ i <;> simp [hk]

theorem add_self_zmod_two (p : (ZMod 2)[X]) : p + p = 0 := by
  ext k
  rw [coeff_add, coeff_zero]
  exact CharTwo.add_self_eq_zero _

def width (n : ℕ) : ℕ := if n = 0 then 0 else n.log2 + 1

/-- A number as it is reduced by shifted copies of `divisor`, at most `fuel` times. -/
def reduce (divisor : ℕ) : ℕ → ℕ → ℕ
  | 0, result => result
  | fuel + 1, result =>
    if width divisor ≤ width result then
      reduce divisor fuel (result ^^^ (divisor <<< (width result - width divisor)))
    else result

theorem binaryPoly_dvd_reduce (divisor fuel result : ℕ) :
    binaryPoly divisor ∣ binaryPoly result + binaryPoly (reduce divisor fuel result) := by
  induction fuel generalizing result with
  | zero =>
    rw [reduce, add_self_zmod_two]
    exact dvd_zero _
  | succ fuel ih =>
    rw [reduce]
    split_ifs
    · have h := ih (result ^^^ (divisor <<< (width result - width divisor)))
      rw [binaryPoly_xor, binaryPoly_shiftLeft, add_right_comm] at h
      exact (dvd_add_left (Dvd.intro _ rfl)).1 h
    · rw [add_self_zmod_two]
      exact dvd_zero _

end BinaryPoly
