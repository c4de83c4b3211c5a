import Mathlib.Algebra.Order.Ring.Int
import Mathlib.Data.Char
import Mathlib.Data.List.DropRight
import Mathlib.Tactic.Ring

/-!
# Texts made of fields

Fields are written one after another with a separator between them. Where no field has the separator
in it, what was written determines the fields, whatever comes after them. An integer is written in
decimal and read back.
-/

open List

namespace Fields

section Separated

variable {α : Type*} {sep : α} {a b r s : List α}

def field (sep : α) (value rest : List α) : List α := value ++ sep :: rest

theorem field_starts (ha : sep ∉ a) (hb : sep ∉ b) :
    field sep a r <+: field sep b s ↔ a = b ∧ r <+: s := by
  unfold field
  induction a generalizing b with
  | nil =>
    cases b with
    | nil => simp
    | cons y b =>
      have hne : sep ≠ y := fun h => hb (h ▸ mem_cons_self)
      simp [hne]
  | cons x a ih =>
    cases b with
    | nil =>
      have hne : x ≠ sep := fun h => ha (h ▸ mem_cons_self)
      simp [hne]
    | cons y b =>
      have hrest := ih (not_mem_of_not_mem_cons ha) (not_mem_of_not_mem_cons hb)
      simp only [cons_append, cons_prefix_cons, hrest, List.cons.injEq, and_assoc]

theorem field_inj (ha : sep ∉ a) (hb : sep ∉ b) (h : field sep a r = field sep b s) :
    a = b ∧ r = s := by
  have hwhole : field sep a r <+: field sep b s := h ▸ prefix_refl (field sep a r)
  have hsame : a = b := ((field_starts ha hb).mp hwhole).1
  subst hsame
  exact ⟨rfl, tail_eq_of_cons_eq (append_cancel_left h)⟩

variable [DecidableEq α]

theorem splitOn_field (ha : sep ∉ a) (r : List α) :
    (field sep a r).splitOn sep = a :: r.splitOn sep :=
  splitOn_append_cons_self_of_not_mem ha r

def splitLast (sep : α) (text : List α) : Option (List α × List α) :=
  if sep ∈ text then
    some ((text.rdropWhile fun c => c ≠ sep).dropLast, text.rtakeWhile fun c => c ≠ sep)
  else none

theorem splitLast_field (hb : sep ∉ b) : splitLast sep (field sep a b) = some (a, b) := by
  have hall : ∀ c ∈ b.reverse, decide (c ≠ sep) = true := fun c hc =>
    decide_eq_true fun h => hb (h ▸ mem_reverse.mp hc)
  unfold splitLast field
  rw [if_pos (by simp)]
  unfold List.rdropWhile List.rtakeWhile
  rw [reverse_append, reverse_cons, append_assoc,
    dropWhile_append_of_pos hall, takeWhile_append_of_pos hall]
  simp

theorem splitLast_eq_some {text : List α} :
    splitLast sep text = some (a, b) ↔ text = field sep a b ∧ sep ∉ b := by
  constructor
  · intro h
    have hmem : sep ∈ text := by
      by_contra hnone
      rw [splitLast, if_neg hnone] at h
      cases h
    obtain ⟨front, back, rfl, hback⟩ : ∃ front back, text = field sep front back ∧ sep ∉ back := by
      obtain ⟨back, front, hreverse, hback⟩ := eq_append_cons_of_mem (mem_reverse.mpr hmem)
      refine ⟨front.reverse, back.reverse, ?_, fun h => hback (mem_reverse.mp h)⟩
      rw [← reverse_reverse text, hreverse]
      simp [field]
    rw [splitLast_field hback, Option.some.injEq, Prod.mk.injEq] at h
    obtain ⟨rfl, rfl⟩ := h
    exact ⟨rfl, hback⟩
  · rintro ⟨rfl, hb⟩
    exact splitLast_field hb

end Separated

/-! ### Integers -/

def decimal (n : ℤ) : List Char :=
  if 0 ≤ n then Nat.toDigits 10 n.natAbs else '-' :: Nat.toDigits 10 n.natAbs

/-- The integer of a text, within bounds; only where there are negative integers may the text begin
with a minus. -/
def parseInteger (low high : ℤ) (text : List Char) : Option ℤ :=
  let (sign, digits) : ℤ × List Char := match text with
    | '-' :: digits => if low < 0 then (-1, digits) else (1, text)
    | _ => (1, text)
  let value := sign * Nat.ofDigitChars 10 digits 0
  if digits ≠ [] ∧ digits.all Char.isDigit ∧ low ≤ value ∧ value ≤ high then some value else none

theorem isDigit_of_mem_toDigits {n : ℕ} {c : Char} (h : c ∈ Nat.toDigits 10 n) : c.isDigit = true :=
  Nat.isDigit_of_mem_toDigits (by decide) (by decide) h

theorem not_mem_decimal {c : Char} (hdigit : c.isDigit = false) (hminus : c ≠ '-') (n : ℤ) :
    c ∉ decimal n := by
  have hdigits : c ∉ Nat.toDigits 10 n.natAbs := fun h =>
    absurd (isDigit_of_mem_toDigits h) (by simp [hdigit])
  unfold decimal
  split_ifs
  · exact hdigits
  · simp [hminus, hdigits]

theorem parseInteger_decimal {low high n : ℤ} (hlow : low ≤ n) (hhigh : n ≤ high) :
    parseInteger low high (decimal n) = some n := by
  have hall : (Nat.toDigits 10 n.natAbs).all Char.isDigit = true :=
    all_eq_true.mpr fun _ => isDigit_of_mem_toDigits
  unfold decimal
  split_ifs with hsign
  · -- the text begins with a digit
    have hsplit : (match Nat.toDigits 10 n.natAbs with
        | '-' :: digits => if low < 0 then ((-1 : ℤ), digits) else (1, Nat.toDigits 10 n.natAbs)
        | _ => (1, Nat.toDigits 10 n.natAbs)) = (1, Nat.toDigits 10 n.natAbs) := by
      split
      · rename_i digits hdigits
        rw [hdigits] at hall
        simp at hall
      · rfl
    unfold parseInteger
    simp only [hsplit, Nat.ofDigitChars_ten_toDigits, one_mul, Int.natAbs_of_nonneg hsign]
    rw [if_pos ⟨Nat.toDigits_ne_nil, hall, hlow, hhigh⟩]
  · have hnegative : low < 0 := lt_of_le_of_lt hlow (not_le.mp hsign)
    have hvalue : -1 * (n.natAbs : ℤ) = n := by omega
    unfold parseInteger
    simp only [if_pos hnegative, Nat.ofDigitChars_ten_toDigits, hvalue]
    rw [if_pos ⟨Nat.toDigits_ne_nil, hall, hlow, hhigh⟩]

theorem decimal_injective : Function.Injective decimal := by
  intro m n h
  have hm : parseInteger (min m n) (max m n) (decimal m) = some m :=
    parseInteger_decimal (min_le_left m n) (le_max_left m n)
  have hn : parseInteger (min m n) (max m n) (decimal n) = some n :=
    parseInteger_decimal (min_le_right m n) (le_max_right m n)
  rw [h, hn] at hm
  exact (Option.some.inj hm).symm

end Fields
