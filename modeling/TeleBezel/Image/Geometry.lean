import TeleBezel.Lib.IntegerSqrt
import TeleBezel.Lib.Word
import Mathlib.Algebra.BigOperators.Group.List.Basic

/-!
# The rows of a TBI image

A TBI image is placed centred on a canvas; a round canvas keeps only the pixels inside its
circle, with one pixel of slack on each side. The renderer (`backend-media/internal/tbi/tbi.go`)
and the watch (`app/src/c/image.c`) compute the stored part of every row for themselves.
-/

open Word

namespace Tbi

/-- The stored part of one image row: its first column relative to the image, the number of
pixels kept and the bytes they take. -/
structure Row where
  x : ℤ
  count : ℤ
  bytes : ℤ

/-- The columns of the circle in row `y`, before they are cut to the image. -/
def circleSpan (diameter dy : ℤ) : ℤ × ℤ :=
  if -diameter < dy ∧ dy < diameter then
    let half : ℤ := IntegerSqrt.isqrt (uint32 (diameter * diameter - dy * dy))
    ((diameter - half - 1).tdiv 2 - 1, (diameter + half - 1).tdiv 2 + 2)
  else (0, 0)

/-- `RowAt`: the columns `[from, to)` of the canvas that row `y` keeps, relative to the image. -/
def rowAt (bits shape width height canvasWidth canvasHeight y : ℤ) : Row :=
  let left := (canvasWidth - width).tdiv 2
  let top := (canvasHeight - height).tdiv 2
  let span :=
    if shape = 1 then
      let circle := circleSpan canvasWidth (2 * (top + y) + 1 - canvasHeight)
      (if circle.1 < left then left else circle.1,
        if left + width < circle.2 then left + width else circle.2)
    else (left, left + width)
  let count := if span.1 < span.2 then span.2 - span.1 else 0
  ⟨span.1 - left, count, (count * bits + 7).tdiv 8⟩

/-- `Size`: the number of bytes the watch allocates for the image. -/
def size (bits shape width height canvasWidth canvasHeight : ℤ) : ℤ :=
  ((List.range height.toNat).map fun y : ℕ =>
    (rowAt bits shape width height canvasWidth canvasHeight y).bytes).sum

/-- The images both sides are made for: a known depth, within a canvas of at most 1024 columns
and rows. -/
structure Fits (bits width height canvasWidth canvasHeight : ℤ) : Prop where
  bits : bits = 1 ∨ bits = 2 ∨ bits = 4
  width_pos : 0 < width
  height_pos : 0 < height
  width_le : width ≤ canvasWidth
  height_le : height ≤ canvasHeight
  canvasWidth_le : canvasWidth ≤ 1024
  canvasHeight_le : canvasHeight ≤ 1024

section Rows

variable {bits shape width height canvasWidth canvasHeight y : ℤ}

theorem rowAt_span :
    let row := rowAt bits shape width height canvasWidth canvasHeight y
    0 ≤ row.x ∧ 0 ≤ row.count ∧ (0 < row.count → row.x + row.count ≤ width) := by
  simp only [rowAt]
  generalize circleSpan _ _ = circle
  split_ifs <;> refine ⟨?_, ?_, fun _ => ?_⟩ <;> simp only at * <;> omega

theorem bytes_rowAt :
    (rowAt bits shape width height canvasWidth canvasHeight y).bytes =
      ((rowAt bits shape width height canvasWidth canvasHeight y).count * bits + 7).tdiv 8 := rfl

theorem tdiv_two_le {a n : ℤ} (h : a ≤ n) (hn : 0 ≤ n) : a.tdiv 2 ≤ n := by
  rw [Int.tdiv_eq_ediv, show Int.sign 2 = 1 from rfl]
  split_ifs <;> omega

theorem circleSpan_fst_le {diameter : ℤ} (h : 0 ≤ diameter) (dy : ℤ) :
    (circleSpan diameter dy).1 ≤ diameter := by
  unfold circleSpan
  split_ifs
  · have := tdiv_two_le (a := diameter - IntegerSqrt.isqrt (uint32 (diameter * diameter - dy * dy)) - 1)
      (n := diameter) (by omega) h
    simp only
    omega
  · exact h

end Rows

end Tbi

namespace Watch

/-- `TbImageHeader`, its words as the numbers they hold. -/
structure TbImageHeader where
  bits : ℕ := 0
  shape : ℕ := 0
  colors : ℕ := 0
  width : ℕ := 0
  height : ℕ := 0
  canvasWidth : ℕ := 0
  canvasHeight : ℕ := 0
  tag : ℕ := 0
  crc : ℕ := 0
  palette : List UInt8 := []
deriving DecidableEq

/-- `TbImageRow`: where a stored row stands on the canvas, its pixels and its bytes. -/
structure TbImageRow where
  x : ℤ
  y : ℤ
  count : ℕ
  bytes : ℕ

/-- `tb_image_isqrt`: the root, cut to 16 bits. -/
def tbImageIsqrt (value : ℕ) : ℕ := uint16 (IntegerSqrt.isqrt value)

variable (header : TbImageHeader)

/-- `tb_image_row`. The products are taken in `int32_t` and cast to `uint32_t`: modulo `2 ^ 32`
the wrapping of the first does not show in the second. -/
def tbImageRow (y : ℕ) : TbImageRow :=
  let left := int16 (((header.canvasWidth : ℤ) - header.width).tdiv 2)
  let top := int16 (((header.canvasHeight : ℤ) - header.height).tdiv 2)
  let rowY := int16 (top + y)
  let span :=
    if header.shape = 1 then
      let diameter : ℤ := header.canvasWidth
      let dy := 2 * rowY + 1 - (header.canvasHeight : ℤ)
      let circle :=
        if -diameter < dy ∧ dy < diameter then
          let half : ℤ := tbImageIsqrt (uint32 (diameter * diameter - dy * dy))
          ((diameter - half - 1).tdiv 2 - 1, (diameter + half - 1).tdiv 2 + 2)
        else (0, 0)
      let start := if circle.1 < left then left else circle.1
      let stop := if left + header.width < circle.2 then left + header.width else circle.2
      (int16 start, uint16 (if start < stop then stop - start else 0))
    else (left, header.width)
  ⟨span.1, rowY, span.2, uint16 (((span.2 * header.bits + 7) / 8 : ℕ) : ℤ)⟩

/-- `tb_image_size`. At most 65535 rows of 32768 bytes: the sum fits its `uint32_t`. -/
def tbImageSize : ℕ :=
  ((List.range header.height).map fun y => (tbImageRow header y).bytes).sum

theorem tbImageIsqrt_eq {value : ℕ} (h : value < 2 ^ 32) :
    tbImageIsqrt value = IntegerSqrt.isqrt value := by
  have hr : IntegerSqrt.isqrt value < 65536 := by
    rw [IntegerSqrt.isqrt_eq_sqrt h]
    exact Nat.sqrt_lt.mpr (by simpa using h)
  rw [tbImageIsqrt, uint16_of_lt (by positivity) (by exact_mod_cast hr), Int.toNat_natCast]

theorem uint32_lt (x : ℤ) : uint32 x < 2 ^ 32 := by
  unfold uint32
  omega

theorem stored_row {bits : ℕ} {start count : ℤ} (hbits : (bits : ℤ) = 1 ∨ (bits : ℤ) = 2 ∨ (bits : ℤ) = 4)
    (h₀ : 0 ≤ start) (h₁ : start ≤ 1024) (h₂ : 0 ≤ count) (h₃ : count ≤ 1024) :
    int16 start = start ∧ (uint16 count : ℤ) = count ∧
      (uint16 (((uint16 count * bits + 7) / 8 : ℕ) : ℤ) : ℤ) = (count * bits + 7).tdiv 8 := by
  have hc : uint16 count = count.toNat := uint16_of_lt h₂ (by omega)
  obtain ⟨n, rfl⟩ := Int.eq_ofNat_of_zero_le h₂
  have hb : bits ≤ 4 := by omega
  have hmul : n * bits ≤ 1024 * 4 := Nat.mul_le_mul (by omega) hb
  refine ⟨int16_of_lt (by omega) (by omega), by omega, ?_⟩
  rw [hc, Int.toNat_natCast, uint16_of_lt (by positivity) (by omega), Int.tdiv_eq_ediv_of_nonneg (by positivity)]
  push_cast
  omega

/-- **The two sides agree on every row** of a canvas of at most 1024 columns and rows. -/
theorem tbImageRow_eq_rowAt (y : ℕ) (hy : y < header.height)
    (h : Tbi.Fits header.bits header.width header.height header.canvasWidth header.canvasHeight) :
    let row := Tbi.rowAt header.bits header.shape header.width header.height header.canvasWidth
      header.canvasHeight y
    let left := ((header.canvasWidth : ℤ) - header.width).tdiv 2
    (tbImageRow header y).x = left + row.x ∧ ((tbImageRow header y).count : ℤ) = row.count ∧
      ((tbImageRow header y).bytes : ℤ) = row.bytes := by
  obtain ⟨hbits, hw, hh, hwc, hhc, hcw, hch⟩ := h
  have hlt : ((header.canvasWidth : ℤ) - header.width).tdiv 2 =
      ((header.canvasWidth : ℤ) - header.width) / 2 := Int.tdiv_eq_ediv_of_nonneg (by omega)
  have htp : ((header.canvasHeight : ℤ) - header.height).tdiv 2 =
      ((header.canvasHeight : ℤ) - header.height) / 2 := Int.tdiv_eq_ediv_of_nonneg (by omega)
  have hleft : int16 (((header.canvasWidth : ℤ) - header.width) / 2) =
      ((header.canvasWidth : ℤ) - header.width) / 2 := int16_of_lt (by omega) (by omega)
  have htop : int16 (((header.canvasHeight : ℤ) - header.height) / 2) =
      ((header.canvasHeight : ℤ) - header.height) / 2 := int16_of_lt (by omega) (by omega)
  have hrowY : int16 (((header.canvasHeight : ℤ) - header.height) / 2 + y) =
      ((header.canvasHeight : ℤ) - header.height) / 2 + y := int16_of_lt (by omega) (by omega)
  simp only [tbImageRow, Tbi.rowAt, tbImageIsqrt_eq (uint32_lt _), hlt, htp, hleft, htop, hrowY]
  rw [← Tbi.circleSpan]
  have hcircle := Tbi.circleSpan_fst_le (Int.natCast_nonneg header.canvasWidth)
    (2 * (((header.canvasHeight : ℤ) - header.height) / 2 + y) + 1 - header.canvasHeight)
  generalize Tbi.circleSpan _ _ = circle at hcircle
  by_cases hs : header.shape = 1
  · have hs' : (header.shape : ℤ) = 1 := by exact_mod_cast hs
    simp only [if_pos hs, if_pos hs']
    set start := if circle.1 < ((header.canvasWidth : ℤ) - header.width) / 2 then
      ((header.canvasWidth : ℤ) - header.width) / 2 else circle.1 with hstart
    set stop := if ((header.canvasWidth : ℤ) - header.width) / 2 + header.width < circle.2 then
      ((header.canvasWidth : ℤ) - header.width) / 2 + header.width else circle.2 with hstop
    set count := if start < stop then stop - start else 0 with hcount
    have h₀ : 0 ≤ start ∧ start ≤ 1024 := by rw [hstart]; split_ifs <;> omega
    have h₁ : stop ≤ 1024 := by rw [hstop]; split_ifs <;> omega
    have h₂ : 0 ≤ count ∧ count ≤ 1024 := by rw [hcount]; split_ifs <;> omega
    obtain ⟨ha, hb, hc⟩ := stored_row hbits h₀.1 h₀.2 h₂.1 h₂.2
    exact ⟨by rw [ha]; omega, hb, hc⟩
  · have hs' : ¬ (header.shape : ℤ) = 1 := by exact_mod_cast hs
    simp only [if_neg hs, if_neg hs']
    have hcount : (if ((header.canvasWidth : ℤ) - header.width) / 2 <
        ((header.canvasWidth : ℤ) - header.width) / 2 + header.width then
        ((header.canvasWidth : ℤ) - header.width) / 2 + header.width -
          ((header.canvasWidth : ℤ) - header.width) / 2 else 0) = header.width := by
      split_ifs <;> omega
    obtain ⟨-, hb, hc⟩ := stored_row hbits (Int.le_refl 0) (by omega) hw.le (by omega)
    have hu : uint16 header.width = header.width := by exact_mod_cast hb
    rw [hu] at hc
    exact ⟨by omega, hcount.symm, by rw [hcount]; exact hc⟩

end Watch
