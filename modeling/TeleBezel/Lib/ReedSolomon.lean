import Mathlib.Algebra.Polynomial.BigOperators
import Mathlib.Tactic.LinearCombination

/-!
# Systematic Reed-Solomon encoding by a shift register

A word over a commutative ring in which every element is its own negative is a polynomial, its
first symbol the highest coefficient. A shift register divides the message by a monic generator
and keeps the remainder, which is then appended to the message.
-/

open Polynomial List

namespace ReedSolomon

variable {R : Type*} [CommRing R]

noncomputable def highFirst : List R → R[X]
  | [] => 0
  | c :: word => C c * X ^ word.length + highFirst word

@[simp] theorem highFirst_nil : highFirst ([] : List R) = 0 := rfl

theorem highFirst_cons (c : R) (word : List R) :
    highFirst (c :: word) = C c * X ^ word.length + highFirst word := rfl

theorem highFirst_append (word rest : List R) :
    highFirst (word ++ rest) = highFirst word * X ^ rest.length + highFirst rest := by
  induction word with
  | nil => simp
  | cons c word ih =>
    rw [cons_append, highFirst_cons, ih, highFirst_cons, length_append, pow_add]
    ring

theorem highFirst_replicate_zero (n : ℕ) : highFirst (List.replicate n (0 : R)) = 0 := by
  induction n with
  | zero => rfl
  | succ n ih => rw [replicate_succ, highFirst_cons, ih, C_0, zero_mul, add_zero]

theorem highFirst_modify {β : Type*} (e : β → R) {f : β → β} {v : R} (hf : ∀ b, e (f b) = e b + v)
    (word : List β) {i : ℕ} (hi : i < word.length) :
    highFirst ((word.modify i f).map e) =
      highFirst (word.map e) + C v * X ^ (word.length - (i + 1)) := by
  induction word generalizing i with
  | nil => exact absurd hi (Nat.not_lt_zero i)
  | cons b word ih =>
    cases i with
    | zero =>
      rw [modify_zero_cons, map_cons, map_cons, highFirst_cons, highFirst_cons, hf,
        C_add, length_map, length_cons, Nat.zero_add, Nat.add_sub_cancel]
      ring
    | succ i =>
      have hi' : i < word.length := Nat.lt_of_succ_lt_succ hi
      rw [modify_succ_cons, map_cons, highFirst_cons, ih hi', map_cons,
        highFirst_cons, length_map, length_modify, length_map, length_cons,
        Nat.add_sub_add_right, add_assoc]

theorem highFirst_eq_sum (word : List R) :
    highFirst word =
      ∑ i ∈ Finset.range word.length, C (word.getD i 0) * X ^ (word.length - (i + 1)) := by
  induction word with
  | nil => rfl
  | cons c word ih =>
    rw [highFirst_cons, ih, length_cons, Finset.sum_range_succ']
    simp only [getD_cons_succ, getD_cons_zero, Nat.add_sub_add_right, Nat.zero_add,
      Nat.add_sub_cancel]
    rw [add_comm]

theorem highFirst_foldl {β : Type*} (e : β → R) {step : List β → ℕ → List β} {value : ℕ → R[X]}
    {length n : ℕ}
    (hstep : ∀ i < n, ∀ word : List β, word.length = length → (step word i).length = length ∧
      highFirst ((step word i).map e) = highFirst (word.map e) + value i)
    {word : List β} (hword : word.length = length) :
    ((List.range n).foldl step word).length = length ∧
      highFirst (((List.range n).foldl step word).map e) =
        highFirst (word.map e) + ∑ i ∈ Finset.range n, value i := by
  induction n with
  | zero => exact ⟨hword, by simp⟩
  | succ n ih =>
    obtain ⟨hlength, hvalue⟩ := ih fun i hi => hstep i (Nat.lt_succ_of_lt hi)
    obtain ⟨hlength', hvalue'⟩ := hstep n (Nat.lt_succ_self n) _ hlength
    rw [range_succ, foldl_append, foldl_cons, foldl_nil]
    exact ⟨hlength', by rw [hvalue', hvalue, Finset.sum_range_succ, add_assoc]⟩

/-- The generator whose roots are the powers of `α` below `degree`. -/
noncomputable def rootsProduct (α : R) (degree : ℕ) : R[X] :=
  ∏ i ∈ Finset.range degree, (X + C (α ^ i))

section CharTwo

variable (hdouble : ∀ x : R, x + x = 0)

include hdouble

theorem add_self_poly (p : R[X]) : p + p = 0 := by
  ext k
  rw [coeff_add, coeff_zero]
  exact hdouble _

/-- One step of the register: its symbols move up by one, and the symbol that leaves it, added to
the next symbol of the message, comes back in multiples of the generator's lower coefficients. -/
theorem dvd_shift {generator lower register next message : R[X]} {degree : ℕ} {symbol factor : R}
    (hgenerator : generator = X ^ degree + lower)
    (hnext : next + C factor * X ^ degree = register * X + C symbol * X ^ degree + C factor * lower)
    (hdvd : generator ∣ message * X ^ degree + register) :
    generator ∣ (message * X + C symbol) * X ^ degree + next := by
  obtain ⟨quotient, hquotient⟩ := hdvd
  refine ⟨quotient * X + C factor, ?_⟩
  have hfactor := add_self_poly hdouble (C factor * X ^ degree)
  have hsymbol := add_self_poly hdouble (C symbol * X ^ degree)
  rw [mul_add, ← mul_assoc, ← hquotient, hgenerator]
  linear_combination hnext + hsymbol - hfactor

theorem eval_of_rootsProduct_dvd {α : R} {degree : ℕ} {word : R[X]}
    (hdvd : rootsProduct α degree ∣ word) {i : ℕ} (hi : i < degree) : word.eval (α ^ i) = 0 := by
  obtain ⟨quotient, rfl⟩ := hdvd
  have hroot : (rootsProduct α degree).eval (α ^ i) = 0 := by
    rw [rootsProduct, eval_prod]
    apply Finset.prod_eq_zero (Finset.mem_range.2 hi)
    rw [eval_add, eval_X, eval_C, hdouble]
  rw [eval_mul, hroot, zero_mul]

end CharTwo

end ReedSolomon
