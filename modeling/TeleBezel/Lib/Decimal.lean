import Mathlib.Tactic.Ring

/-!
# Decimal numbers in bytes

A string of ASCII digits that does not begin with a zero is the decimal form of the number that it spells,
and of no other.
-/

open List

namespace Decimal

def IsDigit (c : UInt8) : Prop := 0x30 ≤ c ∧ c ≤ 0x39

def spell (digits : List UInt8) (front : ℕ) : ℕ :=
  digits.foldl (fun n c => n * 10 + (c.toNat - 0x30)) front

def digitsOf (n : ℕ) : List UInt8 := (Nat.toDigits 10 n).map fun c => UInt8.ofNat c.toNat

structure Plain (digits : List UInt8) : Prop where
  ne_nil : digits ≠ []
  all : ∀ c ∈ digits, IsDigit c
  head : digits.head? ≠ some 0x30

theorem spell_cons (c : UInt8) (digits : List UInt8) (front : ℕ) :
    spell (c :: digits) front = spell digits (front * 10 + (c.toNat - 0x30)) :=
  foldl_cons ..

theorem le_spell (digits : List UInt8) (front : ℕ) : front ≤ spell digits front := by
  induction digits generalizing front with
  | nil => exact Nat.le_refl front
  | cons c digits ih =>
    have hnext := ih (front * 10 + (c.toNat - 0x30))
    rw [spell_cons]
    omega

theorem digitsOf_digit {c : UInt8} (h : IsDigit c) : digitsOf (c.toNat - 0x30) = [c] := by
  obtain ⟨hlow, hhigh⟩ := h
  rw [UInt8.le_iff_toNat_le] at hlow hhigh
  change 48 ≤ c.toNat at hlow
  change c.toNat ≤ 57 at hhigh
  rw [digitsOf, Nat.toDigits_of_lt_base (by omega), map_singleton,
    Nat.toNat_digitChar_of_lt_ten (by omega), Nat.add_sub_cancel' hlow, UInt8.ofNat_toNat]

theorem digitsOf_append {n : ℕ} (hn : 0 < n) {c : UInt8} (h : IsDigit c) :
    digitsOf n ++ [c] = digitsOf (n * 10 + (c.toNat - 0x30)) := by
  have hlt : c.toNat - 0x30 < 10 := by
    have hhigh := UInt8.le_iff_toNat_le.mp h.2
    change c.toNat ≤ 57 at hhigh
    omega
  rw [← digitsOf_digit h, digitsOf, digitsOf, ← map_append,
    Nat.toDigits_append_toDigits (by decide) hn hlt, Nat.mul_comm 10, digitsOf]

theorem digitsOf_spell {digits : List UInt8} (h : ∀ c ∈ digits, IsDigit c) {front : ℕ} (hfront : 0 < front) :
    digitsOf front ++ digits = digitsOf (spell digits front) := by
  induction digits generalizing front with
  | nil => exact append_nil _
  | cons c digits ih =>
    rw [forall_mem_cons] at h
    rw [append_cons, digitsOf_append hfront h.1, ih h.2 (by omega), spell_cons]

theorem Plain.eq {digits : List UInt8} (h : Plain digits) :
    0 < spell digits 0 ∧ digits = digitsOf (spell digits 0) := by
  obtain ⟨c, rest, rfl⟩ := exists_cons_of_ne_nil h.ne_nil
  obtain ⟨hc, hrest⟩ := forall_mem_cons.mp h.all
  have hpos : 0 < c.toNat - 0x30 := by
    have hlow := UInt8.le_iff_toNat_le.mp hc.1
    change 48 ≤ c.toNat at hlow
    have hne : c.toNat ≠ 48 := fun heq => h.head (congrArg some (UInt8.toNat_inj.mp heq))
    omega
  rw [spell_cons, Nat.zero_mul, Nat.zero_add, ← digitsOf_spell hrest hpos, digitsOf_digit hc]
  exact ⟨Nat.lt_of_lt_of_le hpos (le_spell rest _), rfl⟩

theorem plain_digitsOf {n : ℕ} (hn : 0 < n) : Plain (digitsOf n) ∧ spell (digitsOf n) 0 = n := by
  have hone : ∀ d < 10, ∃ c, digitsOf d = [c] ∧ IsDigit c ∧ c.toNat = 48 + d := by
    intro d hd
    refine ⟨UInt8.ofNat (48 + d), ?_, ?_, ?_⟩
    · rw [digitsOf, Nat.toDigits_of_lt_base hd, map_singleton, Nat.toNat_digitChar_of_lt_ten hd]
    · exact (by decide : ∀ d < 10, 0x30 ≤ UInt8.ofNat (48 + d) ∧ UInt8.ofNat (48 + d) ≤ 0x39) d hd
    · rw [UInt8.toNat_ofNat', Nat.mod_eq_of_lt (by omega)]
  induction n using Nat.strongRecOn with
  | ind n ih =>
    by_cases hlt : n < 10
    · obtain ⟨c, hdigits, hc, hvalue⟩ := hone n hlt
      rw [hdigits, spell_cons, hvalue]
      refine ⟨⟨cons_ne_nil _ _, forall_mem_singleton.mpr hc, fun hhead => ?_⟩, ?_⟩
      · obtain rfl := Option.some.inj hhead
        exact absurd hvalue (by omega : 48 ≠ 48 + n)
      · exact (by omega : 0 * 10 + (48 + n - 48) = n)
    · obtain ⟨c, hdigits, hc, hvalue⟩ := hone (n % 10) (Nat.mod_lt n (by decide))
      have hsplit : digitsOf n = digitsOf (n / 10) ++ [c] := by
        rw [← hdigits, digitsOf, digitsOf, digitsOf, ← map_append,
          Nat.toDigits_append_toDigits (by decide) (by omega) (Nat.mod_lt n (by decide)), Nat.div_add_mod]
      obtain ⟨⟨hne, hall, hhead⟩, hspell⟩ := ih (n / 10) (by omega) (by omega)
      rw [hsplit]
      refine ⟨⟨append_ne_nil_of_left_ne_nil hne _, ?_, ?_⟩, ?_⟩
      · rw [forall_mem_append, forall_mem_singleton]
        exact ⟨hall, hc⟩
      · obtain ⟨first, rest, heq⟩ := exists_cons_of_ne_nil hne
        rw [heq] at hhead ⊢
        exact hhead
      · unfold spell at hspell ⊢
        rw [foldl_append, hspell, foldl_cons, foldl_nil, hvalue]
        omega

end Decimal
