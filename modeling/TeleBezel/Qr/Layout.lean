import TeleBezel.Qr.Matrix

/-!
# Where a reader looks

The layout of a version as a reader knows it: the modules of the function patterns, row by row as
masks of columns, the zig-zag through the others and the places of the two copies of the format
bits. The function patterns of the encoder reserve exactly the modules that a reader passes over,
and the others hold all codewords of the version.
-/

open BitString Bitmap List

namespace Qr

/-- The bits from `low` on, as many as given. -/
def span (low count : ℕ) : ℕ := (2 ^ count - 1) <<< low

/-- The centres of the alignment patterns. -/
def centrePairs (version : ℕ) : List (ℕ × ℕ) :=
  let centres := alignment.getD (version - 1) []
  let last := centres.length - 1
  (List.range centres.length).flatMap fun vertical =>
    (List.range centres.length).filterMap fun horizontal =>
      if (vertical = 0 ∧ horizontal = 0) ∨ (vertical = 0 ∧ horizontal = last) ∨
          (vertical = last ∧ horizontal = 0) then none
      else some (centres.getD vertical 0, centres.getD horizontal 0)

/-- The modules of a row that alignment patterns take. -/
def alignmentRow (version row : ℕ) : ℕ :=
  (centrePairs version).foldr
    (fun centre mask =>
      if centre.1 ≤ row + 2 ∧ row ≤ centre.1 + 2 then mask ||| span (centre.2 - 2) 5 else mask) 0

/-- The columns that function patterns take in a row: the three corners with the format bits, the
timing patterns, the version information and the alignment patterns. -/
def functionRow (version row : ℕ) : ℕ :=
  let size := 17 + 4 * version
  (if row < 9 then span 0 9 ||| span (size - 8) 8 else 0) |||
    (if size - 8 ≤ row then span 0 9 else 0) |||
    (if row = 6 then span 0 size else span 6 1) |||
    (if 7 ≤ version ∧ row < 6 then span (size - 11) 3 else 0) |||
    (if 7 ≤ version ∧ size - 11 ≤ row ∧ row < size - 8 then span 0 6 else 0) |||
    alignmentRow version row

/-- A function pattern takes the module. -/
def isFunction (version row column : ℕ) : Bool := (functionRow version row).testBit column

/-- The right column of the strip `k`. -/
def stripRight (size k : ℕ) : ℕ :=
  if size - 1 - 2 * k ≤ 6 then size - 2 - 2 * k else size - 1 - 2 * k

/-- The places of a strip in the order of the data. -/
def strip (size k : ℕ) : List (ℕ × ℕ) :=
  (List.range size).flatMap fun step =>
    let row := if k % 2 = 0 then size - 1 - step else step
    [(row, stripRight size k), (row, stripRight size k - 1)]

/-- All places in the order of the data. -/
def zigzag (size : ℕ) : List (ℕ × ℕ) :=
  (List.range ((size - 1) / 2)).flatMap (strip size)

/-- The places of the data. -/
def dataModules (version : ℕ) : List (ℕ × ℕ) :=
  (zigzag (17 + 4 * version)).filter fun place => !isFunction version place.1 place.2

/-- The places of the format bits around the corner with all three patterns, the lowest first. -/
def formatFirst : List (ℕ × ℕ) :=
  [(0, 8), (1, 8), (2, 8), (3, 8), (4, 8), (5, 8), (7, 8), (8, 8), (8, 7), (8, 5), (8, 4), (8, 3),
   (8, 2), (8, 1), (8, 0)]

/-- The places of the format bits along the other two finder patterns, the lowest first. -/
def formatSecond (size : ℕ) : List (ℕ × ℕ) :=
  (List.range 8).map (fun index => (8, size - 1 - index)) ++
    (List.range' 8 7).map fun index => (size - 15 + index, 8)

section Function

variable {version size row column r c : ℕ}

theorem testBit_span (low count : ℕ) :
    (span low count).testBit c = true ↔ low ≤ c ∧ c < low + count := by
  rw [span, Nat.testBit_shiftLeft, Nat.testBit_two_pow_sub_one]
  simp only [ge_iff_le, Bool.and_eq_true, decide_eq_true_eq]
  omega

theorem testBit_alignmentRow (version row : ℕ) :
    (alignmentRow version row).testBit c = true ↔ ∃ centre ∈ centrePairs version,
      (centre.1 ≤ row + 2 ∧ row ≤ centre.1 + 2) ∧ (centre.2 - 2 ≤ c ∧ c < centre.2 - 2 + 5) := by
  rw [alignmentRow]
  induction centrePairs version with
  | nil => simp
  | cons centre centres ih =>
    simp only [foldr_cons, mem_cons, exists_eq_or_imp]
    by_cases hrow : centre.1 ≤ row + 2 ∧ row ≤ centre.1 + 2
    · rw [if_pos hrow, Nat.testBit_or, Bool.or_eq_true, ih, testBit_span]
      simp only [hrow, true_and, and_self]
      exact or_comm
    · rw [if_neg hrow, ih]
      simp only [hrow, false_and, false_or]

theorem isFunction_iff (version row column : ℕ) :
    isFunction version row column = true ↔
      (row < 9 ∧ (column < 9 ∨
        17 + 4 * version - 8 ≤ column ∧ column < 17 + 4 * version - 8 + 8)) ∨
      (17 + 4 * version - 8 ≤ row ∧ column < 9) ∨
      (if row = 6 then column < 17 + 4 * version else column = 6) ∨
      (7 ≤ version ∧ row < 6 ∧
        17 + 4 * version - 11 ≤ column ∧ column < 17 + 4 * version - 11 + 3) ∨
      (7 ≤ version ∧ (17 + 4 * version - 11 ≤ row ∧ row < 17 + 4 * version - 8) ∧ column < 6) ∨
      ∃ centre ∈ centrePairs version, (centre.1 ≤ row + 2 ∧ row ≤ centre.1 + 2) ∧
        (centre.2 - 2 ≤ column ∧ column < centre.2 - 2 + 5) := by
  have hite (p : Prop) [Decidable p] (mask : ℕ) :
      (if p then mask else 0).testBit column = true ↔ p ∧ mask.testBit column = true := by
    by_cases hp : p <;> simp [hp]
  have htiming : (if row = 6 then span 0 (17 + 4 * version) else span 6 1).testBit column = true ↔
      (if row = 6 then column < 17 + 4 * version else column = 6) := by
    split_ifs
    · rw [testBit_span]
      omega
    · rw [testBit_span]
      omega
  rw [isFunction, functionRow]
  simp only [Nat.testBit_or, Bool.or_eq_true, hite, htiming, testBit_span, testBit_alignmentRow,
    Nat.zero_le, true_and, Nat.zero_add, or_assoc, and_assoc]

end Function

section Reserved

/-- Modules and marks both fill the square. -/
structure Grid.Good (size : ℕ) (grid : Grid) : Prop where
  modules : Square size grid.modules
  reserved : Square size grid.reserved

variable {version size r c : ℕ} {grid : Grid} {writes : List ((ℕ × ℕ) × Bool)}

/-- Every write is inside the square. -/
def Inside (size : ℕ) (writes : List ((ℕ × ℕ) × Bool)) : Prop :=
  ∀ w ∈ writes, w.1.1 < size ∧ w.1.2 < size

section

variable (h : grid.Good size)
include h

theorem Grid.Good.set (row column : ℕ) (value : Bool) :
    (grid.set row column value).Good size :=
  ⟨h.modules.write .., h.reserved.write ..⟩

theorem Grid.Good.keep (row column : ℕ) : (grid.keep row column).Good size := by
  rw [Grid.keep]
  split_ifs
  · exact h
  · exact h.set ..

theorem Grid.Good.setAll (writes : List ((ℕ × ℕ) × Bool)) :
    (grid.setAll writes).Good size := by
  induction writes generalizing grid with
  | nil => exact h
  | cons w writes ih => exact ih (h.set ..)

theorem reserved_set {row column : ℕ} (hrow : row < size) (hcolumn : column < size) (value : Bool) :
    cell (grid.set row column value).reserved r c = true ↔
      cell grid.reserved r c = true ∨ (row, column) = (r, c) := by
  rw [Grid.set, cell_write h.reserved hrow hcolumn]
  split_ifs with heq
  · simp [heq]
  · simp [Ne.symm heq]

theorem reserved_keep {row column : ℕ} (hrow : row < size) (hcolumn : column < size) :
    cell (grid.keep row column).reserved r c = true ↔
      cell grid.reserved r c = true ∨ (row, column) = (r, c) := by
  rw [Grid.keep]
  split_ifs with hkept
  · constructor
    · exact Or.inl
    · rintro (hcell | heq)
      · exact hcell
      · rw [Prod.mk.injEq] at heq
        rw [← heq.1, ← heq.2, hkept]
  · exact reserved_set h hrow hcolumn false

theorem reserved_setAll (hinside : Inside size writes) :
    cell (grid.setAll writes).reserved r c = true ↔
      cell grid.reserved r c = true ∨ ∃ w ∈ writes, w.1 = (r, c) := by
  induction writes generalizing grid with
  | nil => simp [Grid.setAll]
  | cons w writes ih =>
    have hw := hinside w mem_cons_self
    rw [Grid.setAll, foldl_cons, ← Grid.setAll,
      ih (h.set ..) fun w' hw' => hinside w' (mem_cons_of_mem w hw'),
      reserved_set h hw.1 hw.2]
    simp only [mem_cons, exists_eq_or_imp, or_assoc]

theorem reserved_keeps (place : ℕ → (ℕ × ℕ) × (ℕ × ℕ)) {n : ℕ}
    (hplace : ∀ index < n, ((place index).1.1 < size ∧ (place index).1.2 < size) ∧
      (place index).2.1 < size ∧ (place index).2.2 < size) :
    let kept := (List.range n).foldl (fun grid index =>
      (grid.keep (place index).1.1 (place index).1.2).keep (place index).2.1 (place index).2.2) grid
    kept.Good size ∧ (cell kept.reserved r c = true ↔ cell grid.reserved r c = true ∨
      ∃ index < n, (place index).1 = (r, c) ∨ (place index).2 = (r, c)) := by
  induction n with
  | zero => exact ⟨h, by simp⟩
  | succ n ih =>
    obtain ⟨hgood, hcell⟩ := ih fun index hindex => hplace index (Nat.lt_succ_of_lt hindex)
    obtain ⟨hfirst, hsecond⟩ := hplace n (Nat.lt_succ_self n)
    simp only [range_succ, foldl_append, foldl_cons, foldl_nil]
    refine ⟨(hgood.keep ..).keep .., ?_⟩
    rw [reserved_keep (hgood.keep ..) hsecond.1 hsecond.2, reserved_keep hgood hfirst.1 hfirst.2,
      hcell]
    simp only [Nat.lt_succ_iff_lt_or_eq, or_and_right, exists_or, exists_eq_left, or_assoc,
      Prod.mk.eta]

end

theorem mem_offsets {low x : ℤ} {count : ℕ} : x ∈ offsets low count ↔ low ≤ x ∧ x < low + count := by
  simp only [offsets, mem_map, mem_range]
  constructor
  · rintro ⟨k, hk, rfl⟩
    omega
  · rintro ⟨hlow, hhigh⟩
    exact ⟨(x - low).toNat, by omega, by omega⟩

theorem mem_finder (size top left r c : ℕ) :
    (∃ w ∈ finder size top left, w.1 = (r, c)) ↔
      (r < size ∧ c < size) ∧ (top ≤ r + 1 ∧ r ≤ top + 7) ∧ (left ≤ c + 1 ∧ c ≤ left + 7) := by
  simp only [finder, mem_flatMap, mem_filterMap, mem_offsets]
  constructor
  · rintro ⟨w, ⟨row, hrow, column, hcolumn, hw⟩, hwp⟩
    split_ifs at hw with hout
    injection hw with hw
    subst hw
    rw [Prod.mk.injEq] at hwp
    omega
  · rintro ⟨hsize, hr, hc⟩
    have hplace : ((top + ((r : ℤ) - top)).toNat, (left + ((c : ℤ) - left)).toNat) = (r, c) := by
      rw [Prod.mk.injEq]
      omega
    exact ⟨_, ⟨(r : ℤ) - top, by omega, (c : ℤ) - left, by omega, if_neg (by omega)⟩, hplace⟩

theorem mem_timing (size r c : ℕ) :
    (∃ w ∈ timing size, w.1 = (r, c)) ↔
      (r = 6 ∧ 8 ≤ c ∧ c < 8 + (size - 8 - 8)) ∨ (c = 6 ∧ 8 ≤ r ∧ r < 8 + (size - 8 - 8)) := by
  simp only [timing, mem_flatMap, mem_range'_1, mem_cons, not_mem_nil, or_false]
  constructor
  · rintro ⟨w, ⟨index, hindex, hw⟩, hwp⟩
    rcases hw with rfl | rfl <;> rw [Prod.mk.injEq] at hwp <;> omega
  · rintro (⟨rfl, hc⟩ | ⟨rfl, hr⟩)
    · exact ⟨_, ⟨c, hc, Or.inl rfl⟩, rfl⟩
    · exact ⟨_, ⟨r, hr, Or.inr rfl⟩, rfl⟩

theorem mem_versionInformation (version size r c : ℕ) :
    (∃ w ∈ versionInformation version size, w.1 = (r, c)) ↔
      7 ≤ version ∧ ((r < 6 ∧ size - 11 ≤ c ∧ c < size - 11 + 3) ∨
        (c < 6 ∧ size - 11 ≤ r ∧ r < size - 11 + 3)) := by
  rw [versionInformation]
  split_ifs with hversion
  · simp only [mem_flatMap, mem_range, mem_cons, not_mem_nil, or_false,
      hversion, true_and]
    constructor
    · rintro ⟨w, ⟨index, hindex, hw⟩, hwp⟩
      rcases hw with rfl | rfl <;> rw [Prod.mk.injEq] at hwp <;> omega
    · rintro (⟨hr, hc⟩ | ⟨hc, hr⟩)
      · refine ⟨_, ⟨3 * r + (c - (size - 11)), by omega, Or.inl rfl⟩, ?_⟩
        rw [Prod.mk.injEq]
        omega
      · refine ⟨_, ⟨3 * c + (r - (size - 11)), by omega, Or.inr rfl⟩, ?_⟩
        rw [Prod.mk.injEq]
        omega
  · simp [hversion]

theorem centrePairs_bounds (hversion : 1 ≤ version ∧ version ≤ 10) :
    ∀ centre ∈ centrePairs version, (2 ≤ centre.1 ∧ centre.1 + 2 < 17 + 4 * version) ∧
      2 ≤ centre.2 ∧ centre.2 + 2 < 17 + 4 * version := by
  obtain ⟨hlow, hhigh⟩ := hversion
  interval_cases version <;> decide

theorem alignments_eq (version : ℕ) :
    alignments version = (centrePairs version).flatMap fun centre =>
      (offsets (-2) 5).flatMap fun dy => (offsets (-2) 5).map fun dx =>
        (((centre.1 + dy).toNat, (centre.2 + dx).toNat), decide (max dy.natAbs dx.natAbs ≠ 1)) := by
  simp only [alignments, centrePairs, flatMap_assoc]
  refine flatMap_congr fun vertical _ => ?_
  rw [filterMap_eq_flatMap_toList, flatMap_assoc]
  refine flatMap_congr fun horizontal _ => ?_
  split_ifs
  · rfl
  · simp

theorem mem_alignments (hversion : 1 ≤ version ∧ version ≤ 10) (r c : ℕ) :
    (∃ w ∈ alignments version, w.1 = (r, c)) ↔ ∃ centre ∈ centrePairs version,
      (centre.1 ≤ r + 2 ∧ r ≤ centre.1 + 2) ∧ (centre.2 - 2 ≤ c ∧ c < centre.2 - 2 + 5) := by
  have hbounds := centrePairs_bounds hversion
  simp only [alignments_eq, mem_flatMap, mem_map, mem_offsets]
  constructor
  · rintro ⟨w, ⟨centre, hcentre, dy, hdy, dx, hdx, rfl⟩, hwp⟩
    have := hbounds centre hcentre
    rw [Prod.mk.injEq] at hwp
    exact ⟨centre, hcentre, by omega, by omega⟩
  · rintro ⟨centre, hcentre, hr, hc⟩
    have := hbounds centre hcentre
    refine ⟨_, ⟨centre, hcentre, (r : ℤ) - centre.1, by omega, (c : ℤ) - centre.2, by omega, rfl⟩, ?_⟩
    rw [Prod.mk.injEq]
    omega

theorem inside_of_mem (h : ∀ r c, (∃ w ∈ writes, w.1 = (r, c)) → r < size ∧ c < size) :
    Inside size writes :=
  fun w hw => h w.1.1 w.1.2 ⟨w, hw, rfl⟩

theorem cell_emptyGrid (size r c : ℕ) : cell (emptyGrid size).reserved r c = false := by
  simp only [cell, emptyGrid, getD_eq_getElem?_getD, List.getElem?_replicate]
  split_ifs <;> simp [List.getElem?_replicate]
  split_ifs <;> rfl

theorem placeFunctionPatterns_spec (hversion : 1 ≤ version ∧ version ≤ 10)
    (hsize : size = 17 + 4 * version) :
    (placeFunctionPatterns (emptyGrid size) version size).Good size ∧ ∀ r c,
      (cell (placeFunctionPatterns (emptyGrid size) version size).reserved r c = true ↔
        ((((((((∃ w ∈ finder size 0 0, w.1 = (r, c)) ∨
          ∃ w ∈ finder size 0 (size - 7), w.1 = (r, c)) ∨
          ∃ w ∈ finder size (size - 7) 0, w.1 = (r, c)) ∨
          ∃ w ∈ timing size, w.1 = (r, c)) ∨
          ∃ w ∈ alignments version, w.1 = (r, c)) ∨
          (size - 8, 8) = (r, c)) ∨
          ∃ index < 9, (8, index) = (r, c) ∨ (index, 8) = (r, c)) ∨
          ∃ index < 8, (8, size - 1 - index) = (r, c) ∨ (size - 1 - index, 8) = (r, c)) ∨
          ∃ w ∈ versionInformation version size, w.1 = (r, c)) := by
  have hfinder (top left : ℕ) : Inside size (finder size top left) :=
    inside_of_mem fun r c h => ((mem_finder ..).1 h).1
  have htiming : Inside size (timing size) := by
    refine inside_of_mem fun r c h => ?_
    rw [mem_timing] at h
    omega
  have halignments : Inside size (alignments version) := by
    refine inside_of_mem fun r c h => ?_
    obtain ⟨centre, hcentre, hr, hc⟩ := (mem_alignments hversion r c).1 h
    have := centrePairs_bounds hversion centre hcentre
    omega
  have hinformation : Inside size (versionInformation version size) := by
    refine inside_of_mem fun r c h => ?_
    rw [mem_versionInformation] at h
    omega
  have h₀ : (emptyGrid size).Good size := ⟨square_replicate .., square_replicate ..⟩
  have h₁ := h₀.setAll (finder size 0 0)
  have h₂ := h₁.setAll (finder size 0 (size - 7))
  have h₃ := h₂.setAll (finder size (size - 7) 0)
  have h₄ := h₃.setAll (timing size)
  have h₅ := h₄.setAll (alignments version)
  have h₆ := h₅.set (size - 8) 8 true
  have h₇ (r c : ℕ) := @reserved_keeps size r c _ h₆ (fun index => ((8, index), (index, 8))) 9
    (fun index hindex => ⟨by constructor <;> dsimp only <;> omega, by constructor <;> dsimp only <;> omega⟩)
  have h₈ (r c : ℕ) := @reserved_keeps size r c _ (h₇ r c).1
    (fun index => ((8, size - 1 - index), (size - 1 - index, 8))) 8
    (fun index hindex => ⟨by constructor <;> dsimp only <;> omega, by constructor <;> dsimp only <;> omega⟩)
  refine ⟨(h₈ 0 0).1.setAll _, fun r c => ?_⟩
  rw [placeFunctionPatterns, reserved_setAll (h₈ r c).1 hinformation, (h₈ r c).2, (h₇ r c).2,
    reserved_set h₅ (by omega) (by omega), reserved_setAll h₄ halignments, reserved_setAll h₃ htiming,
    reserved_setAll h₂ (hfinder _ _), reserved_setAll h₁ (hfinder _ _),
    reserved_setAll h₀ (hfinder _ _), cell_emptyGrid]
  simp only [Bool.false_eq_true, false_or]

theorem reserved_eq_isFunction (hversion : 1 ≤ version ∧ version ≤ 10)
    (hr : r < 17 + 4 * version) (hc : c < 17 + 4 * version) :
    cell (placeFunctionPatterns (emptyGrid (17 + 4 * version)) version
      (17 + 4 * version)).reserved r c = isFunction version r c := by
  rw [Bool.eq_iff_iff, (placeFunctionPatterns_spec hversion rfl).2 r c, isFunction_iff]
  simp only [mem_finder, mem_timing, mem_alignments hversion, mem_versionInformation,
    Prod.mk.injEq]
  -- the alignment patterns are the same on both sides, the rest is about four intervals
  by_cases halign : ∃ centre ∈ centrePairs version, (centre.1 ≤ r + 2 ∧ r ≤ centre.1 + 2) ∧
      (centre.2 - 2 ≤ c ∧ c < centre.2 - 2 + 5)
  · simp only [halign, or_true, true_or]
  · have hkept : (∃ index < 9, 8 = r ∧ index = c ∨ index = r ∧ 8 = c) ↔
        (r = 8 ∧ c < 9) ∨ (c = 8 ∧ r < 9) := by
      constructor
      · rintro ⟨index, hindex, h⟩
        omega
      · rintro (h | h)
        · exact ⟨c, h.2, by omega⟩
        · exact ⟨r, h.2, by omega⟩
    have hkept' : (∃ index < 8, 8 = r ∧ 17 + 4 * version - 1 - index = c ∨
        17 + 4 * version - 1 - index = r ∧ 8 = c) ↔
        (r = 8 ∧ 17 + 4 * version - 8 ≤ c) ∨ (c = 8 ∧ 17 + 4 * version - 8 ≤ r) := by
      constructor
      · rintro ⟨index, hindex, h⟩
        omega
      · rintro (h | h)
        · exact ⟨17 + 4 * version - 1 - c, by omega, by omega⟩
        · exact ⟨17 + 4 * version - 1 - r, by omega, by omega⟩
    rw [hkept, hkept']
    constructor
    · rintro (((((((h | h) | h) | h | h) | h) | h | h) | h | h) | ⟨h, h' | h'⟩) <;> grind
    · rintro (⟨h, h' | h'⟩ | h | h | h | h) <;> grind

end Reserved

section Zigzag

variable {version size k r c : ℕ}

theorem mem_strip (size k r c : ℕ) :
    (r, c) ∈ strip size k ↔
      r < size ∧ (c = stripRight size k ∨ c = stripRight size k - 1) := by
  simp only [strip, mem_flatMap, mem_range, mem_cons, Prod.mk.injEq,
    not_mem_nil, or_false]
  constructor
  · rintro ⟨step, hstep, h⟩
    split_ifs at h <;> omega
  · rintro ⟨hr, hc⟩
    refine ⟨if k % 2 = 0 then size - 1 - r else r, ?_⟩
    split_ifs <;> omega

theorem stripRight_pos (hk : k < (size - 1) / 2) (hodd : size % 2 = 1) : 1 ≤ stripRight size k := by
  rw [stripRight]
  split_ifs <;> omega

theorem stripRight_lt (hk : k < (size - 1) / 2) : stripRight size k < size := by
  rw [stripRight]
  split_ifs <;> omega

theorem mem_zigzag (hodd : size % 2 = 1) (hsize : 9 ≤ size) (hr : r < size) (hc : c < size)
    (htiming : c ≠ 6) : (r, c) ∈ zigzag size := by
  rw [zigzag, mem_flatMap]
  refine ⟨if c < 6 then (size - 2 - c) / 2 else (size - 1 - c) / 2, ?_, ?_⟩
  · rw [mem_range]
    split_ifs <;> omega
  · rw [mem_strip, stripRight]
    split_ifs <;> omega

theorem lt_of_mem_zigzag (h : (r, c) ∈ zigzag size) : r < size ∧ c < size := by
  rw [zigzag, mem_flatMap] at h
  obtain ⟨k, hk, hmem⟩ := h
  have := stripRight_lt (mem_range.1 hk)
  rw [mem_strip] at hmem
  omega

theorem nodup_strip (hk : k < (size - 1) / 2) (hodd : size % 2 = 1) : (strip size k).Nodup := by
  have hpos := stripRight_pos hk hodd
  rw [strip, nodup_flatMap]
  constructor
  · intro step _
    simp only [nodup_cons, mem_singleton, Prod.mk.injEq, true_and, not_mem_nil,
      not_false_eq_true, nodup_nil, and_self, and_true]
    omega
  · refine List.Pairwise.imp_of_mem ?_ nodup_range
    intro step step' hstep hstep' hne
    rw [mem_range] at hstep hstep'
    simp only [Function.onFun, disjoint_cons_left, mem_cons, Prod.mk.injEq,
      not_mem_nil, or_false]
    split_ifs <;> simp <;> omega

theorem nodup_zigzag (hodd : size % 2 = 1) : (zigzag size).Nodup := by
  rw [zigzag, nodup_flatMap]
  constructor
  · intro k hk
    exact nodup_strip (mem_range.1 hk) hodd
  · -- the columns of two strips differ
    refine List.Pairwise.imp_of_mem ?_ nodup_range
    rintro k k' hk hk' hne ⟨r, c⟩ hmem hmem'
    rw [mem_range] at hk hk'
    rw [mem_strip, stripRight] at hmem hmem'
    split_ifs at hmem hmem' <;> omega

/-- The columns of a row that hold data. -/
def freeRow (version row : ℕ) : List ℕ :=
  (List.range (17 + 4 * version)).filter fun column => !(functionRow version row).testBit column

theorem sum_freeRow_le (version : ℕ) :
    ((List.range (17 + 4 * version)).map fun row => (freeRow version row).length).sum ≤
      (dataModules version).length := by
  set free := (List.range (17 + 4 * version)).flatMap fun row =>
    (freeRow version row).map fun column => (row, column)
  have hlength : free.length =
      ((List.range (17 + 4 * version)).map fun row => (freeRow version row).length).sum := by
    simp only [free, length_flatMap, length_map]
  have hnodup : free.Nodup := by
    rw [nodup_flatMap]
    constructor
    · intro row _
      exact (nodup_range.filter _).map fun a b h => (Prod.mk.inj h).2
    · refine List.Pairwise.imp ?_ nodup_range
      intro row row' hne place hplace hplace'
      obtain ⟨column, -, rfl⟩ := mem_map.1 hplace
      obtain ⟨column', -, heq⟩ := mem_map.1 hplace'
      exact hne (Prod.mk.inj heq).1.symm
  rw [← hlength]
  refine (hnodup.subperm fun place hplace => ?_).length_le
  obtain ⟨row, hrow, hplace⟩ := mem_flatMap.1 hplace
  obtain ⟨column, hcolumn, rfl⟩ := mem_map.1 hplace
  rw [freeRow, mem_filter] at hcolumn
  obtain ⟨hrange, hfree⟩ := hcolumn
  rw [mem_range] at hrow hrange
  -- the timing column is taken as a whole
  have htiming : column ≠ 6 := by
    rintro rfl
    have hfunction : isFunction version row 6 = true := by
      rw [isFunction_iff]
      refine Or.inr (Or.inr (Or.inl ?_))
      split_ifs
      · exact hrange
      · rfl
    rw [isFunction] at hfunction
    rw [hfunction] at hfree
    exact absurd hfree (by decide)
  exact mem_filter.2 ⟨mem_zigzag (by omega) (by omega) hrow hrange htiming, hfree⟩

/-- The codewords of a version, with parity. -/
def totalCodewords (version : ℕ) : ℕ :=
  capacity version + (sizesFor version).length * ecFor version

theorem room (hversion : 1 ≤ version ∧ version ≤ 10) :
    8 * totalCodewords version ≤ (dataModules version).length := by
  refine le_trans ?_ (sum_freeRow_le version)
  obtain ⟨hlow, hhigh⟩ := hversion
  interval_cases version <;> decide +kernel

end Zigzag

section Place

variable {size : ℕ} (reserved : List (List Bool)) (stream : List UInt8)

/-- The writes of the bits of the stream along the places. -/
def bitsAlong (stream : List UInt8) (bit : ℕ) (places : List (ℕ × ℕ)) : List ((ℕ × ℕ) × Bool) :=
  (places.zipIdx bit).map fun place => (place.1, streamBit stream place.2)

theorem foldl_placeBit (places : List (ℕ × ℕ)) (bit : ℕ) (modules : List (List Bool)) :
    places.foldl (fun state place => placeBit reserved stream state place.1 place.2) (bit, modules) =
      (bit + (places.filter fun place => !cell reserved place.1 place.2).length,
        writeAll modules
          (bitsAlong stream bit (places.filter fun place => !cell reserved place.1 place.2))) := by
  induction places generalizing bit modules with
  | nil => rfl
  | cons place places ih =>
    by_cases hreserved : cell reserved place.1 place.2 = true
    · have hstep : placeBit reserved stream (bit, modules) place.1 place.2 = (bit, modules) :=
        if_pos hreserved
      rw [foldl_cons, hstep, filter_cons_of_neg (by simp [hreserved]), ih]
    · have hstep : placeBit reserved stream (bit, modules) place.1 place.2 =
          (bit + 1, write modules place.1 place.2 (streamBit stream bit)) := if_neg hreserved
      rw [foldl_cons, hstep, filter_cons_of_pos (by simp [hreserved]), length_cons,
        ih]
      simp only [bitsAlong, zipIdx_cons, map_cons, writeAll, foldl_cons]
      rw [Nat.add_right_comm, Nat.add_assoc]

theorem placeStrip_eq (k : ℕ) (state : ℕ × List (List Bool)) :
    placeStrip reserved stream size (stripRight size k) (decide (k % 2 = 0)) state =
      (strip size k).foldl
        (fun state place => placeBit reserved stream state place.1 place.2) state := by
  simp only [placeStrip, strip, foldl_flatMap, foldl_cons, foldl_nil,
    decide_eq_true_eq]

/-- The column at which the loop comes to a strip. -/
def arrival (size k : ℕ) : ℕ :=
  if 6 ≤ size - 1 - 2 * k then size - 1 - 2 * k else size - 2 - 2 * k

theorem placeStrips_eq (hodd : size % 2 = 1) {rounds k : ℕ} (hk : k + rounds = (size - 1) / 2)
    (spare : ℕ) (state : ℕ × List (List Bool)) :
    placeStrips reserved stream size (rounds + (spare + 1)) (arrival size k) (decide (k % 2 = 0))
        state =
      ((List.range' k rounds).flatMap (strip size)).foldl
        (fun state place => placeBit reserved stream state place.1 place.2) state := by
  induction rounds generalizing k state with
  | zero =>
    have hend : arrival size k < 1 := by
      rw [arrival]
      split_ifs <;> omega
    rw [Nat.zero_add, placeStrips, if_pos hend, range'_zero, flatMap_nil, foldl_nil]
  | succ rounds ih =>
    have hgo : ¬arrival size k < 1 := by
      rw [arrival]
      split_ifs <;> omega
    have hright : (if arrival size k = 6 then 5 else arrival size k) = stripRight size k := by
      rw [arrival, stripRight]
      split_ifs <;> omega
    have hnext : stripRight size k - 2 = arrival size (k + 1) := by
      rw [arrival, stripRight]
      split_ifs <;> omega
    have hupward : (!decide (k % 2 = 0)) = decide ((k + 1) % 2 = 0) := by
      rw [← decide_not, decide_eq_decide]
      omega
    rw [Nat.add_right_comm, placeStrips, if_neg hgo]
    simp only [hright, hnext, hupward]
    rw [ih (by omega), placeStrip_eq, range'_succ, flatMap_cons, foldl_append]

theorem placeData_eq (hodd : size % 2 = 1) (hsize : 9 ≤ size) (grid : Grid) :
    (placeData grid stream size).modules =
      writeAll grid.modules (bitsAlong stream 0
        ((zigzag size).filter fun place => !cell grid.reserved place.1 place.2)) := by
  have hspare : size = (size - 1) / 2 + ((size - 1) / 2 + 1) := by omega
  have harrival : size - 1 = arrival size 0 := by
    rw [arrival]
    split_ifs <;> omega
  have hrun := placeStrips_eq grid.reserved stream hodd
    (Nat.zero_add ((size - 1) / 2)) ((size - 1) / 2) (0, grid.modules)
  rw [← hspare, ← harrival, ← range_eq_range', foldl_placeBit] at hrun
  exact congrArg Prod.snd hrun

end Place

end Qr
