import Mathlib.Algebra.BigOperators.Group.List.Basic
import Mathlib.Data.List.Nodup
import Mathlib.Data.List.Range
import Mathlib.Tactic.Ring

/-!
# Blocks read column by column

Blocks of different lengths are written out column by column, a block that has ended left out.
Whoever knows the lengths knows whose turn it is at each symbol and deals them out again.
-/

open List

namespace Columns

variable {α : Type*} (blocks : List (List α))

/-- The symbols of blocks in the first `n` columns. -/
def columns (n : ℕ) : List α :=
  (List.range n).flatMap fun index => blocks.filterMap (·[index]?)

/-- The block of each symbol in the first `n` columns of blocks of some sizes. -/
def turns (sizes : List ℕ) (n : ℕ) : List ℕ :=
  (List.range n).flatMap fun index =>
    (List.range sizes.length).filter fun block => index < sizes.getD block 0

/-- Symbols dealt out to `count` blocks, each to the block whose turn it is. -/
def deal (turns : List ℕ) (count : ℕ) (symbols : List α) : List (List α) :=
  (List.range count).map fun block =>
    (turns.zip symbols).filterMap fun turn => if turn.1 = block then some turn.2 else none

def labelled (index : ℕ) : List (ℕ × α) :=
  (List.range blocks.length).filterMap fun block =>
    (blocks.getD block [])[index]?.map fun symbol => (block, symbol)

theorem map_snd_labelled (index : ℕ) :
    (labelled blocks index).map Prod.snd = blocks.filterMap (·[index]?) := by
  have hblocks : (List.range blocks.length).map (fun block => blocks.getD block []) = blocks := by
    apply ext_getElem
    · simp
    · intro i h₁ h₂
      simp [List.getElem?_eq_getElem h₂]
  conv_rhs => rw [← hblocks, filterMap_map]
  rw [labelled, map_filterMap]
  refine filterMap_congr fun block _ => ?_
  simp [Option.map_map, Function.comp_def]

theorem map_fst_labelled (index : ℕ) :
    (labelled blocks index).map Prod.fst =
      (List.range (blocks.map List.length).length).filter
        fun block => index < (blocks.map List.length).getD block 0 := by
  rw [labelled, map_filterMap, ← filterMap_eq_filter, length_map]
  refine filterMap_congr fun block hblock => ?_
  have hlt : block < blocks.length := mem_range.1 hblock
  by_cases hindex : index < blocks[block].length
  · simp [hlt, hindex, Option.guard]
  · simp [hlt, hindex, Option.guard]

theorem filterMap_single {β : Type*} {entries : List ℕ} (hnodup : entries.Nodup) {a : ℕ}
    (ha : a ∈ entries) (value : Option β) :
    (entries.filterMap fun b => if b = a then value else none) = value.toList := by
  induction entries with
  | nil => exact absurd ha not_mem_nil
  | cons b entries ih =>
    obtain ⟨hb, hnodup'⟩ := nodup_cons.1 hnodup
    by_cases hba : b = a
    · -- none of the entries behind it counts
      subst hba
      have hrest : (entries.filterMap fun c => if c = b then value else none) = [] := by
        rw [filterMap_eq_nil_iff]
        intro c hc
        rw [if_neg]
        rintro rfl
        exact hb hc
      rw [filterMap_cons, if_pos rfl, hrest]
      cases value <;> rfl
    · rw [filterMap_cons, if_neg hba]
      exact ih hnodup' ((mem_cons.1 ha).resolve_left (Ne.symm hba))

theorem filterMap_labelled {blocks : List (List α)} {block : ℕ} (hblock : block < blocks.length)
    (index : ℕ) :
    (labelled blocks index).filterMap
        (fun turn => if turn.1 = block then some turn.2 else none) =
      (blocks[block])[index]?.toList := by
  rw [labelled, filterMap_filterMap,
    ← filterMap_single nodup_range (mem_range.2 hblock)]
  refine filterMap_congr fun b hb => ?_
  by_cases heq : b = block
  · subst heq
    cases h : (blocks.getD b [])[index]? <;> simp_all
  · cases h : (blocks.getD b [])[index]? <;> simp [heq]

theorem flatMap_toList_getElem? (block : List α) {n : ℕ} (hn : block.length ≤ n) :
    ((List.range n).flatMap fun index => block[index]?.toList) = block := by
  induction n generalizing block with
  | zero => rw [eq_nil_of_length_eq_zero (Nat.le_zero.1 hn)]; rfl
  | succ n ih =>
    cases block with
    | nil => simp
    | cons symbol block =>
      rw [range_succ_eq_map, flatMap_cons, flatMap_map]
      simp only [Nat.succ_eq_add_one, List.getElem?_cons_succ, List.getElem?_cons_zero,
        Option.toList_some, singleton_append]
      rw [ih block (Nat.le_of_succ_le_succ hn)]

theorem zip_turns_columns (n : ℕ) (rest : List α) :
    (turns (blocks.map List.length) n).zip (columns blocks n ++ rest) =
      (List.range n).flatMap (labelled blocks) := by
  have hfst : turns (blocks.map List.length) n =
      ((List.range n).flatMap (labelled blocks)).map Prod.fst := by
    simp only [turns, map_flatMap, map_fst_labelled]
  have hsnd : columns blocks n = ((List.range n).flatMap (labelled blocks)).map Prod.snd := by
    simp only [columns, map_flatMap, map_snd_labelled]
  rw [hfst, hsnd, ← append_nil (List.map Prod.fst _),
    zip_append (by rw [length_map, length_map]), zip_nil_left,
    append_nil]
  exact (zip_of_prod rfl rfl).symm

theorem deal_columns {blocks : List (List α)} {n : ℕ} (hn : ∀ block ∈ blocks, block.length ≤ n)
    (rest : List α) :
    deal (turns (blocks.map List.length) n) blocks.length (columns blocks n ++ rest) = blocks := by
  rw [deal, zip_turns_columns]
  apply ext_getElem
  · simp
  · intro block h₁ h₂
    rw [getElem_map, getElem_range, filterMap_flatMap]
    simp only [filterMap_labelled h₂]
    exact flatMap_toList_getElem? _ (hn _ (getElem_mem h₂))

theorem length_columns {blocks : List (List α)} {n : ℕ}
    (hn : ∀ block ∈ blocks, block.length ≤ n) :
    (columns blocks n).length = (blocks.map List.length).sum := by
  have hcolumn (block : List α) (blocks : List (List α)) (index : ℕ) :
      ((block :: blocks).filterMap (·[index]?)).length =
        block[index]?.toList.length + (blocks.filterMap (·[index]?)).length := by
    cases h : block[index]? <;> simp [h, Nat.add_comm]
  induction blocks with
  | nil => simp [columns]
  | cons block blocks ih =>
    have hblock := congrArg List.length
      (flatMap_toList_getElem? block (hn block mem_cons_self))
    have hblocks := ih fun other hother => hn other (mem_cons_of_mem block hother)
    rw [columns, length_flatMap] at hblocks ⊢
    rw [length_flatMap] at hblock
    simp only [hcolumn, sum_map_add]
    rw [hblock, hblocks, map_cons, sum_cons]

end Columns
