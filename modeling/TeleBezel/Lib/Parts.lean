import Mathlib.Data.List.Infix
import Mathlib.Tactic.Ring

/-!
# Text that is taken part by part

A text comes in parts, and of every part so many bytes are taken as there is room for. What has been
taken is a piece of the text from its start as long as nothing is taken after a part that was not
taken whole. It ends at a character if each part consists of characters and is cut at one.
-/

open List

namespace Parts

def Continues (byte : UInt8) : Prop := byte &&& 0xC0 = 0x80

instance (byte : UInt8) : Decidable (Continues byte) :=
  inferInstanceAs (Decidable (byte &&& 0xC0 = 0x80))

/-- Back from a place over the bytes that continue a character. -/
def back (bytes : List UInt8) : ℕ → ℕ
  | 0 => 0
  | last + 1 => if Continues (bytes.getD (last + 1) 0) then back bytes last else last + 1

theorem back_le (bytes : List UInt8) (last : ℕ) : back bytes last ≤ last := by
  induction last with
  | zero => exact Nat.le_refl 0
  | succ last ih =>
    rw [back]
    split
    · exact ih.trans (Nat.le_succ last)
    · exact Nat.le_refl _

theorem back_boundary {bytes : List UInt8} {byte : UInt8} {last : ℕ}
    (hbyte : bytes[back bytes last]? = some byte) (hpos : 0 < back bytes last) :
    ¬ Continues byte := by
  induction last with
  | zero => exact absurd hpos (Nat.lt_irrefl 0)
  | succ last ih =>
    rw [back] at hbyte hpos
    split at hbyte
    · rename_i hcontinues
      rw [if_pos hcontinues] at hpos
      exact ih hbyte hpos
    · rename_i hfirst
      rwa [getD_eq_getElem?_getD, hbyte, Option.getD_some] at hfirst

/-- Whole characters. -/
def Characters (bytes : List UInt8) : Prop :=
  ∃ chars : List Char, bytes = chars.flatMap String.utf8EncodeChar

/-- A piece of a text ends at a character: the text goes on with none that has begun. -/
def Boundary (piece text : List UInt8) : Prop :=
  ∀ byte, (text.drop piece.length).head? = some byte → ¬ Continues byte

theorem not_continues {byte : UInt8} (h : byte.IsUTF8FirstByte) : ¬ Continues byte := by
  have hall : ∀ n < 256, (UInt8.ofNat n).IsUTF8FirstByte → ¬ Continues (UInt8.ofNat n) := by
    decide +kernel
  rw [← UInt8.ofNat_toNat (x := byte)] at h ⊢
  exact hall byte.toNat byte.toNat_lt h

theorem Characters.head {bytes : List UInt8} (h : Characters bytes) {byte : UInt8}
    (hbyte : bytes.head? = some byte) : ¬ Continues byte := by
  obtain ⟨chars, rfl⟩ := h
  cases chars with
  | nil => cases hbyte
  | cons char chars =>
    apply not_continues
    have hpos : 0 < (String.utf8EncodeChar char).length := by
      rw [String.length_utf8EncodeChar]
      exact char.utf8Size_pos
    have hfirst := UInt8.isUTF8FirstByte_getElem_zero_utf8EncodeChar (c := char)
    rw [flatMap_cons, List.head?_append, List.head?_eq_getElem?, List.getElem?_eq_getElem hpos,
      Option.some_or, Option.some.injEq] at hbyte
    rwa [← hbyte]

/-- What has been taken of the parts is a piece of the text, from its start; and it ends at a
character if the parts consist of such. -/
structure Shows (taken : List UInt8) (parts : List (List UInt8)) : Prop where
  piece : taken <+: parts.flatten
  boundary : (∀ part ∈ parts, Characters part) → Boundary taken parts.flatten

variable {taken part : List UInt8} {parts more : List (List UInt8)} {n : ℕ}

theorem Shows.nil : Shows [] [] := ⟨prefix_refl [], fun _ _ h => by cases h⟩

theorem Shows.skip (h : Shows taken parts) (part : List UInt8) : Shows taken (parts ++ [part]) := by
  have hflat : (parts ++ [part]).flatten = parts.flatten ++ part := by simp
  refine ⟨hflat ▸ h.piece.trans (prefix_append _ _), fun hparts byte hbyte => ?_⟩
  have hbefore := h.boundary fun part hpart => hparts part (mem_append_left _ hpart)
  rw [hflat, drop_append_of_le_length h.piece.length_le, List.head?_append] at hbyte
  cases hrest : (parts.flatten.drop taken.length).head? with
  | none =>
    rw [hrest, Option.none_or] at hbyte
    exact (hparts part (by simp)).head hbyte
  | some first =>
    rw [hrest, Option.some_or, Option.some.injEq] at hbyte
    exact hbyte ▸ hbefore first hrest

theorem Shows.skips (h : Shows taken parts) (more : List (List UInt8)) :
    Shows taken (parts ++ more) := by
  induction more generalizing parts with
  | nil => rwa [append_nil]
  | cons part more ih =>
    rw [append_cons]
    exact ih (h.skip part)

theorem Shows.none (parts : List (List UInt8)) : Shows [] parts := Shows.nil.skips parts

theorem Shows.take (h : taken = parts.flatten) (hn : ∀ byte, part[n]? = some byte → 0 < n →
    ¬ Continues byte) : Shows (taken ++ part.take n) (parts ++ [part]) := by
  have hflat : (parts ++ [part]).flatten = parts.flatten ++ part := by simp
  subst h
  refine ⟨?_, fun hparts byte hbyte => ?_⟩
  · rw [hflat, prefix_append_right_inj]
    exact List.take_prefix n part
  · rw [hflat, length_append, drop_append, Nat.add_sub_cancel_left, drop_of_length_le
      (Nat.le_add_right _ _), nil_append, List.head?_drop] at hbyte
    by_cases hle : n ≤ part.length
    · rw [length_take, Nat.min_eq_left hle] at hbyte
      rcases Nat.eq_zero_or_pos n with rfl | hpos
      · exact (hparts part (by simp)).head (by rwa [List.head?_eq_getElem?])
      · exact hn byte hbyte hpos
    · rw [length_take, Nat.min_eq_right (by omega), List.getElem?_eq_none (by omega)] at hbyte
      cases hbyte

end Parts
