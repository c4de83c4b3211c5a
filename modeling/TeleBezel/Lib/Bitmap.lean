import Mathlib.Data.List.Nodup
import Mathlib.Tactic.Ring

/-!
# Square bitmaps

A bitmap is a list of rows. Cells are written one at a time, or all are mapped.
-/

open List

namespace Bitmap

def cell (rows : List (List Bool)) (row column : ℕ) : Bool :=
  (rows.getD row []).getD column false

def write (rows : List (List Bool)) (row column : ℕ) (value : Bool) : List (List Bool) :=
  rows.modify row (·.set column value)

def writeAll (rows : List (List Bool)) (writes : List ((ℕ × ℕ) × Bool)) : List (List Bool) :=
  writes.foldl (fun rows w => write rows w.1.1 w.1.2 w.2) rows

def mapCells (f : ℕ → ℕ → Bool → Bool) (rows : List (List Bool)) : List (List Bool) :=
  rows.mapIdx fun row line => line.mapIdx fun column value => f row column value

/-- A bitmap of `size` rows of `size` cells. -/
structure Square (size : ℕ) (rows : List (List Bool)) : Prop where
  height : rows.length = size
  widths : ∀ line ∈ rows, line.length = size

variable {size row column : ℕ} {rows : List (List Bool)}

theorem square_replicate (size : ℕ) (value : Bool) :
    Square size (List.replicate size (List.replicate size value)) where
  height := length_replicate
  widths line hline := by rw [eq_of_mem_replicate hline, length_replicate]

theorem Square.write (h : Square size rows) (row column : ℕ) (value : Bool) :
    Square size (write rows row column value) where
  height := by rw [Bitmap.write, length_modify, h.height]
  widths line hline := by
    obtain ⟨i, hi, rfl⟩ := getElem_of_mem hline
    rw [Bitmap.write, length_modify] at hi
    have hwidth := h.widths rows[i] (getElem_mem hi)
    simp only [Bitmap.write, getElem_modify]
    split_ifs
    · rw [length_set, hwidth]
    · exact hwidth

theorem Square.writeAll (h : Square size rows) (writes : List ((ℕ × ℕ) × Bool)) :
    Square size (writeAll rows writes) := by
  induction writes generalizing rows with
  | nil => exact h
  | cons w writes ih => exact ih (h.write ..)

theorem Square.mapCells (h : Square size rows) (f : ℕ → ℕ → Bool → Bool) :
    Square size (mapCells f rows) where
  height := by rw [Bitmap.mapCells, length_mapIdx, h.height]
  widths line hline := by
    obtain ⟨i, hi, rfl⟩ := getElem_of_mem hline
    rw [Bitmap.mapCells, length_mapIdx] at hi
    simp only [Bitmap.mapCells, getElem_mapIdx, length_mapIdx]
    exact h.widths rows[i] (getElem_mem hi)

section

variable (h : Square size rows) (hrow : row < size) (hcolumn : column < size)
include h hrow hcolumn

theorem Square.cell_eq :
    ∃ (hr : row < rows.length) (hc : column < rows[row].length),
      cell rows row column = rows[row][column] := by
  have hr : row < rows.length := by rwa [h.height]
  have hc : column < rows[row].length := by rwa [h.widths _ (getElem_mem hr)]
  refine ⟨hr, hc, ?_⟩
  rw [cell, getD_eq_getElem?_getD, getD_eq_getElem?_getD, List.getElem?_eq_getElem hr,
    Option.getD_some, List.getElem?_eq_getElem hc, Option.getD_some]

theorem cell_write (value : Bool) (r c : ℕ) :
    cell (write rows row column value) r c =
      if (r, c) = (row, column) then value else cell rows r c := by
  have hr : row < rows.length := by rwa [h.height]
  have hc : column < rows[row].length := by rwa [h.widths _ (getElem_mem hr)]
  simp only [cell, write, getD_eq_getElem?_getD, List.getElem?_modify, Prod.mk.injEq]
  by_cases hrow' : row = r
  · subst hrow'
    rw [List.getElem?_eq_getElem hr]
    by_cases hcolumn' : column = c
    · subst hcolumn'
      simp [hc]
    · simp [hcolumn', Ne.symm hcolumn']
  · simp [hrow', Ne.symm hrow']

theorem cell_mapCells (f : ℕ → ℕ → Bool → Bool) :
    cell (mapCells f rows) row column = f row column (cell rows row column) := by
  obtain ⟨hr, hc, hcell⟩ := h.cell_eq hrow hcolumn
  obtain ⟨hr', hc', hcell'⟩ := (h.mapCells f).cell_eq hrow hcolumn
  rw [hcell, hcell']
  simp only [mapCells, getElem_mapIdx]

end

section WriteAll

variable {writes : List ((ℕ × ℕ) × Bool)}

section

variable (h : Square size rows) (hinside : ∀ w ∈ writes, w.1.1 < size ∧ w.1.2 < size)
include h hinside

theorem cell_writeAll_of_not_mem {r c : ℕ}
    (hnot : ∀ w ∈ writes, w.1 ≠ (r, c)) :
    cell (writeAll rows writes) r c = cell rows r c := by
  induction writes generalizing rows with
  | nil => rfl
  | cons w writes ih =>
    have hw := hinside w mem_cons_self
    rw [writeAll, foldl_cons, ← writeAll,
      ih (h.write ..) (fun w' hw' => hinside w' (mem_cons_of_mem w hw'))
        (fun w' hw' => hnot w' (mem_cons_of_mem w hw')),
      cell_write h hw.1 hw.2, if_neg (Ne.symm (hnot w mem_cons_self))]

theorem cell_writeAll (hnodup : (writes.map Prod.fst).Nodup) {r c : ℕ} {value : Bool}
    (hmem : ((r, c), value) ∈ writes) : cell (writeAll rows writes) r c = value := by
  induction writes generalizing rows with
  | nil => exact absurd hmem not_mem_nil
  | cons w writes ih =>
    rw [map_cons, nodup_cons] at hnodup
    have hinside' : ∀ w' ∈ writes, w'.1.1 < size ∧ w'.1.2 < size :=
      fun w' hw' => hinside w' (mem_cons_of_mem w hw')
    rw [writeAll, foldl_cons, ← writeAll]
    rcases mem_cons.1 hmem with rfl | hmem
    · -- the writes behind it do not touch the cell
      have hw := hinside ((r, c), value) mem_cons_self
      rw [cell_writeAll_of_not_mem (h.write ..) hinside', cell_write h hw.1 hw.2, if_pos rfl]
      intro w' hw' heq
      exact hnodup.1 (mem_map.2 ⟨w', hw', heq⟩)
    · exact ih (h.write ..) hinside' hnodup.2 hmem

end

end WriteAll

end Bitmap
