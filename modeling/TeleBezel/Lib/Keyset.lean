import Mathlib.Data.List.Sort
import Mathlib.Tactic.Ring

/-!
# Pages by keys

Items with keys in a linear order are cut into pages, the highest keys first. A page starts below
the key at which the one before it ended.
-/

open List

namespace Keyset

variable {α κ : Type*} [LinearOrder κ] (key : α → κ)

def descending (items : List α) : List α := items.insertionSort fun a b => key b ≤ key a

def below (boundary : Option κ) (items : List α) : List α :=
  match boundary with
  | none => items
  | some bound => items.dropWhile fun a => !decide (key a < bound)

theorem descending_perm (items : List α) : (descending key items).Perm items :=
  perm_insertionSort _ _

theorem pairwise_descending (items : List α) :
    (descending key items).Pairwise fun a b => key b ≤ key a := by
  have : Std.Total fun a b : α => key b ≤ key a := ⟨fun a b => le_total (key b) (key a)⟩
  have : IsTrans α fun a b => key b ≤ key a := ⟨fun _ _ _ hab hbc => hbc.trans hab⟩
  exact pairwise_insertionSort _ items

variable {key} {items : List α}

theorem below_some_eq_filter (h : items.Pairwise fun a b => key b ≤ key a) (bound : κ) :
    below key (some bound) items = items.filter fun a => decide (key a < bound) := by
  induction items with
  | nil => rfl
  | cons a items ih =>
    rw [pairwise_cons] at h
    by_cases ha : key a < bound
    · -- the rest is below the boundary as well
      have hall : items.filter (fun b => decide (key b < bound)) = items := by
        rw [filter_eq_self]
        intro b hb
        exact decide_eq_true (lt_of_le_of_lt (h.1 b hb) ha)
      rw [below, dropWhile_cons_of_neg (by simp [ha]),
        filter_cons_of_pos (by simp [ha]), hall]
    · rw [below, dropWhile_cons_of_pos (by simp [ha]),
        filter_cons_of_neg (by simp [ha])]
      exact ih h.2

theorem mem_below (h : items.Pairwise fun a b => key b ≤ key a) (boundary : Option κ) (a : α) :
    a ∈ below key boundary items ↔ a ∈ items ∧ ∀ bound ∈ boundary, key a < bound := by
  cases boundary with
  | none => simp [below]
  | some bound =>
    rw [below_some_eq_filter h, mem_filter]
    simp

theorem below_sublist (boundary : Option κ) (items : List α) :
    (below key boundary items).Sublist items := by
  cases boundary with
  | none => exact List.Sublist.refl items
  | some bound => exact dropWhile_sublist _

theorem mem_take_iff (h : items.Pairwise fun a b => key b < key a) {limit : ℕ}
    (hlimit : limit < items.length) (hpos : 0 < limit) (a : α) (ha : a ∈ items) :
    a ∈ items.take limit ↔ key items[limit - 1] ≤ key a := by
  obtain ⟨i, hi, rfl⟩ := getElem_of_mem ha
  have hpairwise := pairwise_iff_getElem.1 h
  constructor
  · intro hmem
    rw [mem_take_iff_getElem] at hmem
    obtain ⟨j, hj, hji⟩ := hmem
    rw [← hji]
    rcases Nat.lt_or_ge j (limit - 1) with hlt | hge
    · exact (hpairwise j (limit - 1) (by omega) (by omega) hlt).le
    · have heq : j = limit - 1 := by omega
      subst heq
      exact le_rfl
  · intro hle
    have hlt : i < limit := by
      by_contra hge
      exact absurd hle (not_le.2 (hpairwise (limit - 1) i (by omega) hi (by omega)))
    rw [mem_take_iff_getElem]
    exact ⟨i, by omega, rfl⟩

theorem pairwise_lt (hinj : ∀ a ∈ items, ∀ b ∈ items, key a = key b → a = b) (hnodup : items.Nodup)
    (boundary : Option κ) :
    (below key boundary (descending key items)).Pairwise fun a b => key b < key a := by
  have hperm := descending_perm key items
  have hnodup' := hperm.nodup_iff.2 hnodup
  have hlt : (descending key items).Pairwise fun a b => key b < key a := by
    refine (List.Pairwise.and (pairwise_descending key items) hnodup').imp_of_mem ?_
    rintro a b ha hb ⟨hle, hne⟩
    refine lt_of_le_of_ne hle fun heq => hne ?_
    exact hinj a (hperm.mem_iff.1 ha) b (hperm.mem_iff.1 hb) heq.symm
  exact hlt.sublist (below_sublist boundary _)

end Keyset
