import Mathlib.Data.List.Basic
import Mathlib.Tactic.Ring

/-!
# Codes that can be read back

A code gives every letter a word. It can be read back when a decoder takes the word of a letter
off the front of any text; a text of such words ends where a letter stands that begins none.
-/

open List

namespace Quoted

variable {α β : Type*}

/-- The words of a code can be read off the front of a text, and no word begins with `stop`. -/
structure Readable (code : α → List β) (stop : β) : Prop where
  front : ∀ a b r r', code a ++ r = code b ++ r' → a = b ∧ r = r'
  ended : ∀ a r r', code a ++ r ≠ stop :: r'

theorem Readable.of_decoder {code : α → List β} {stop : β} (decode : List β → Option (α × List β))
    (hdecode : ∀ a r, decode (code a ++ r) = some (a, r))
    (hstop : ∀ a r r', code a ++ r ≠ stop :: r') : Readable code stop := by
  refine ⟨?_, hstop⟩
  intro a b r r' h
  have hread := hdecode a r
  rw [h, hdecode b r', Option.some.injEq, Prod.mk.injEq] at hread
  exact ⟨hread.1.symm, hread.2.symm⟩

/-- **Reading back.** A coded text that ends with `stop` determines its letters and its rest. -/
theorem Readable.flatMap_append_inj {code : α → List β} {stop : β} (h : Readable code stop)
    (as bs : List α) (r r' : List β)
    (heq : as.flatMap code ++ stop :: r = bs.flatMap code ++ stop :: r') : as = bs ∧ r = r' := by
  induction as generalizing bs with
  | nil =>
    cases bs with
    | nil => simpa using heq
    | cons b bs =>
      rw [flatMap_cons, append_assoc] at heq
      exact absurd heq.symm (h.ended b _ _)
  | cons a as ih =>
    cases bs with
    | nil =>
      rw [flatMap_cons, append_assoc] at heq
      exact absurd heq (h.ended a _ _)
    | cons b bs =>
      rw [flatMap_cons, flatMap_cons, append_assoc, append_assoc] at heq
      obtain ⟨rfl, hrest⟩ := h.front a b _ _ heq
      obtain ⟨rfl, rfl⟩ := ih bs hrest
      exact ⟨rfl, rfl⟩

end Quoted
