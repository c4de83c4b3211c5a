import Mathlib.Tactic.Ring

/-!
# Blocks of equal labels

Items have a key and a label. Two keys are in one block when they are the same, or when all items
from the one key to the other have the same label, and this is not the zero label that stands for
none.
-/

namespace Block

variable {α : Type*} (key label : α → ℕ)

def InBlock (items : List α) (m k : ℕ) : Prop :=
  m = k ∨ ∃ a, a ≠ 0 ∧ ∀ x ∈ items, min m k ≤ key x → key x ≤ max m k → label x = a

namespace InBlock

variable {key label} {items items' : List α} {m k l : ℕ}

theorem refl (items : List α) (m : ℕ) : InBlock key label items m m := Or.inl rfl

section

variable (h : InBlock key label items m k)
include h

theorem symm : InBlock key label items k m := by
  rcases h with rfl | ⟨a, ha, hall⟩
  · exact Or.inl rfl
  · refine Or.inr ⟨a, ha, ?_⟩
    rw [min_comm, max_comm]
    exact hall

theorem between (hmin : min m k ≤ l) (hmax : l ≤ max m k) :
    InBlock key label items l k := by
  rcases h with rfl | ⟨a, ha, hall⟩
  · rw [min_self] at hmin
    rw [max_self] at hmax
    exact Or.inl (le_antisymm hmax hmin)
  · refine Or.inr ⟨a, ha, fun x hx hlow hhigh => hall x hx ?_ ?_⟩
    · exact (le_min hmin (min_le_right m k)).trans hlow
    · exact hhigh.trans (max_le hmax (le_max_right m k))

theorem cut (hmin : min m k ≤ l) (hmax : l ≤ max m k) :
    InBlock key label items m l := by
  rw [min_comm] at hmin
  rw [max_comm] at hmax
  exact (h.symm.between hmin hmax).symm

theorem trans (hk : ∃ x ∈ items, key x = k)
    (h' : InBlock key label items k l) : InBlock key label items m l := by
  rcases h with rfl | ⟨a, ha, hall⟩
  · exact h'
  rcases h' with rfl | ⟨b, -, hall'⟩
  · exact Or.inr ⟨a, ha, hall⟩
  obtain ⟨x, hx, rfl⟩ := hk
  -- the common item has both labels
  have hsame : b = a := by
    rw [← hall' x hx (min_le_left _ _) (le_max_left _ _)]
    exact hall x hx (min_le_right _ _) (le_max_right _ _)
  refine Or.inr ⟨a, ha, fun y hy hlow hhigh => ?_⟩
  rcases le_total (key y) (key x) with hle | hle
  · by_cases hm : min m (key x) ≤ key y
    · exact hall y hy hm (hle.trans (le_max_right _ _))
    · have hl : min (key x) l ≤ key y := by
        rw [min_le_iff] at hlow hm ⊢
        tauto
      rw [← hsame]
      exact hall' y hy hl (hle.trans (le_max_left _ _))
  · by_cases hm : key y ≤ max m (key x)
    · exact hall y hy ((min_le_right _ _).trans hle) hm
    · have hl : key y ≤ max (key x) l := by
        rw [le_max_iff] at hhigh hm ⊢
        tauto
      rw [← hsame]
      exact hall' y hy ((min_le_left _ _).trans hle) hl

theorem of_imp
    (hitems : ∀ x ∈ items', key x ≤ max m k → x ∈ items) : InBlock key label items' m k := by
  rcases h with rfl | ⟨a, ha, hall⟩
  · exact Or.inl rfl
  · exact Or.inr ⟨a, ha, fun x hx hlow hhigh => hall x (hitems x hx hhigh) hlow hhigh⟩

end

end InBlock

end Block
