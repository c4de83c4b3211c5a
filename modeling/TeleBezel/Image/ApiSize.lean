import TeleBezel.Image.Geometry
import Mathlib.Algebra.BigOperators.Ring.Finset

/-!
# The size of an image, three times

The API (`backend-api/app/Support/Tbi.php`) computes the size of an image before it stores or sends
it. It takes the columns of the circle from a square root in floating point, which two loops correct:
whatever the root is taken for, the size is the one of the renderer and of the watch.
-/

open Word

namespace Api

/-- The root of the API: `sqrt` is what `(int) floor(sqrt(..))` gives. -/
def tbiHalf (sqrt : ℤ → ℕ) (value : ℤ) : ℤ :=
  IntegerSqrt.lower value.toNat (IntegerSqrt.raise value.toNat (sqrt value))

/-- The columns of row `y` that are kept. -/
def tbiSpan (sqrt : ℤ → ℕ) (round : Bool) (width height canvasWidth canvasHeight y : ℤ) : ℤ × ℤ :=
  let left := (canvasWidth - width).tdiv 2
  let top := (canvasHeight - height).tdiv 2
  if round then
    let diameter := canvasWidth
    let dy := 2 * (top + y) + 1 - canvasHeight
    let circle :=
      if -diameter < dy ∧ dy < diameter then
        let half := tbiHalf sqrt (diameter * diameter - dy * dy)
        ((diameter - half - 1).tdiv 2 - 1, (diameter + half - 1).tdiv 2 + 2)
      else (0, 0)
    (max circle.1 left, min circle.2 (left + width))
  else (left, left + width)

/-- `Tbi::size`. -/
def tbiSize (sqrt : ℤ → ℕ) (bits : ℤ) (round : Bool)
    (width height canvasWidth canvasHeight : ℤ) : ℤ :=
  ((List.range height.toNat).map fun y : ℕ =>
    let span := tbiSpan sqrt round width height canvasWidth canvasHeight y
    (max 0 (span.2 - span.1) * bits + 7).tdiv 8).sum

theorem tbiHalf_eq_sqrt (sqrt : ℤ → ℕ) (value : ℤ) :
    tbiHalf sqrt value = Nat.sqrt value.toNat := by
  unfold tbiHalf
  rw [IntegerSqrt.lower_raise]

end Api

namespace Tbi

theorem uint32_radicand {diameter dy : ℤ} (h : diameter ≤ 1024)
    (hdy : -diameter < dy ∧ dy < diameter) :
    uint32 (diameter * diameter - dy * dy) = (diameter * diameter - dy * dy).toNat := by
  have hnonneg : 0 ≤ diameter * diameter - dy * dy := by nlinarith
  have hlt : diameter * diameter - dy * dy < 2 ^ 32 := by nlinarith
  unfold uint32
  rw [Int.emod_eq_of_lt hnonneg (by simpa using hlt)]

theorem circleSpan_eq {diameter dy : ℤ} (h : diameter ≤ 1024) (hdy : -diameter < dy ∧ dy < diameter) :
    let half : ℤ := Nat.sqrt (diameter * diameter - dy * dy).toNat
    circleSpan diameter dy = ((diameter - half - 1).tdiv 2 - 1, (diameter + half - 1).tdiv 2 + 2) := by
  have hword := uint32_radicand h hdy
  have hroot : (diameter * diameter - dy * dy).toNat < 2 ^ 32 := hword ▸ Watch.uint32_lt _
  unfold circleSpan
  rw [if_pos hdy, hword, IntegerSqrt.isqrt_eq_sqrt hroot]

end Tbi

section Agree

variable {bits shape width height canvasWidth canvasHeight : ℤ}

theorem Api.tbiSpan_eq (sqrt : ℤ → ℕ) (hcanvas : canvasWidth ≤ 1024) (y : ℤ) :
    let span := tbiSpan sqrt (decide (shape = 1)) width height canvasWidth canvasHeight y
    (max 0 (span.2 - span.1) * bits + 7).tdiv 8 =
      (Tbi.rowAt bits shape width height canvasWidth canvasHeight y).bytes := by
  intro span
  rw [Tbi.bytes_rowAt]
  suffices hcount : max 0 (span.2 - span.1) =
      (Tbi.rowAt bits shape width height canvasWidth canvasHeight y).count by rw [hcount]
  by_cases hshape : shape = 1
  · have hcircle : (if -canvasWidth < 2 * ((canvasHeight - height).tdiv 2 + y) + 1 - canvasHeight ∧
        2 * ((canvasHeight - height).tdiv 2 + y) + 1 - canvasHeight < canvasWidth then
        let half := tbiHalf sqrt (canvasWidth * canvasWidth -
          (2 * ((canvasHeight - height).tdiv 2 + y) + 1 - canvasHeight) *
            (2 * ((canvasHeight - height).tdiv 2 + y) + 1 - canvasHeight))
        ((canvasWidth - half - 1).tdiv 2 - 1, (canvasWidth + half - 1).tdiv 2 + 2)
        else (0, 0)) =
        Tbi.circleSpan canvasWidth (2 * ((canvasHeight - height).tdiv 2 + y) + 1 - canvasHeight) := by
      split_ifs with hdy
      · rw [Tbi.circleSpan_eq hcanvas hdy, tbiHalf_eq_sqrt]
      · rw [Tbi.circleSpan, if_neg hdy]
    have hspan : span = tbiSpan sqrt true width height canvasWidth canvasHeight y := by
      rw [show span = tbiSpan sqrt (decide (shape = 1)) width height canvasWidth canvasHeight y
        from rfl, decide_eq_true hshape]
    rw [hspan]
    simp only [tbiSpan, if_true, hcircle, Tbi.rowAt, if_pos hshape]
    generalize Tbi.circleSpan _ _ = circle
    split_ifs <;> omega
  · have hspan : span = tbiSpan sqrt false width height canvasWidth canvasHeight y := by
      rw [show span = tbiSpan sqrt (decide (shape = 1)) width height canvasWidth canvasHeight y
        from rfl, decide_eq_false hshape]
    rw [hspan]
    simp only [tbiSpan, Tbi.rowAt, if_neg hshape, Bool.false_eq_true, if_false]
    split_ifs <;> omega

/-- **The API and the renderer agree on the size**, whatever the square root is taken for. -/
theorem Api.tbiSize_eq (sqrt : ℤ → ℕ) (hcanvas : canvasWidth ≤ 1024) :
    tbiSize sqrt bits (decide (shape = 1)) width height canvasWidth canvasHeight =
      Tbi.size bits shape width height canvasWidth canvasHeight := by
  unfold tbiSize Tbi.size
  congr 1
  exact List.map_congr_left fun y _ => tbiSpan_eq sqrt hcanvas y

theorem Watch.tbImageSize_eq (header : Watch.TbImageHeader)
    (h : Tbi.Fits header.bits header.width header.height header.canvasWidth header.canvasHeight) :
    (Watch.tbImageSize header : ℤ) = Tbi.size header.bits header.shape header.width header.height
      header.canvasWidth header.canvasHeight := by
  unfold Watch.tbImageSize Tbi.size
  rw [Int.toNat_natCast, Nat.cast_list_sum, List.map_map]
  congr 1
  refine List.map_congr_left fun y hy => ?_
  exact (Watch.tbImageRow_eq_rowAt header y (List.mem_range.mp hy) h).2.2

theorem Tbi.pixel_index {y index : ℤ} (hy : 0 ≤ y ∧ y < height)
    (hindex : 0 ≤ index ∧
      index < (rowAt bits shape width height canvasWidth canvasHeight y).count) :
    let position := y * width + (rowAt bits shape width height canvasWidth canvasHeight y).x + index
    0 ≤ position ∧ position < width * height := by
  intro position
  have hrow := @rowAt_span bits shape width height canvasWidth canvasHeight y
  obtain ⟨hx, -, hspan⟩ := hrow
  have hwithin := hspan (hindex.1.trans_lt hindex.2)
  have hwidth : 0 ≤ width := by omega
  -- the rows before it, and the row itself
  have hbefore : 0 ≤ y * width := mul_nonneg hy.1 hwidth
  have hrows : (y + 1) * width ≤ height * width :=
    mul_le_mul_of_nonneg_right (by omega) hwidth
  have hcomm : height * width = width * height := mul_comm height width
  have hnext : (y + 1) * width = y * width + width := by ring
  constructor
  · omega
  · omega

end Agree

/-- **The geometry is the same in all three**: the rows of the watch and of the renderer, the sizes of
all three, whatever the API's square root is taken for; a row lies within the columns of the image, so
that `Pack` reads within its pixels; and a round canvas is cut at the exact root of `d * d - dy * dy`
in all three. -/
theorem geometry_agrees (sqrt : ℤ → ℕ) (header : Watch.TbImageHeader)
    (hshape : header.shape = 0 ∨ header.shape = 1)
    (h : Tbi.Fits header.bits header.width header.height header.canvasWidth header.canvasHeight) :
    (∀ y < header.height,
      let row := Tbi.rowAt header.bits header.shape header.width header.height header.canvasWidth
        header.canvasHeight y
      let stored := Watch.tbImageRow header y
      stored.x = ((header.canvasWidth : ℤ) - header.width).tdiv 2 + row.x ∧
        (stored.count : ℤ) = row.count ∧ (stored.bytes : ℤ) = row.bytes ∧ 0 ≤ row.x ∧
        (0 < row.count → row.x + row.count ≤ header.width) ∧
        ∀ index : ℕ, (index : ℤ) < row.count →
          0 ≤ (y : ℤ) * header.width + row.x + index ∧
            (y : ℤ) * header.width + row.x + index < (header.width : ℤ) * header.height) ∧
      (Watch.tbImageSize header : ℤ) = Tbi.size header.bits header.shape header.width header.height
        header.canvasWidth header.canvasHeight ∧
      Api.tbiSize sqrt header.bits (decide (header.shape = 1)) header.width header.height
          header.canvasWidth header.canvasHeight =
        Tbi.size header.bits header.shape header.width header.height header.canvasWidth
          header.canvasHeight ∧
      ∀ dy : ℤ, -(header.canvasWidth : ℤ) < dy → dy < header.canvasWidth →
        let value := (header.canvasWidth : ℤ) * header.canvasWidth - dy * dy
        IntegerSqrt.isqrt (uint32 value) = Nat.sqrt value.toNat ∧
          Watch.tbImageIsqrt (uint32 value) = Nat.sqrt value.toNat ∧
          Api.tbiHalf sqrt value = Nat.sqrt value.toNat := by
  have hcanvas := h.canvasWidth_le
  refine ⟨fun y hy => ?_, Watch.tbImageSize_eq header h, ?_, fun dy hlow hhigh => ?_⟩
  · obtain ⟨hx, hcount, hbytes⟩ := Watch.tbImageRow_eq_rowAt header y hy h
    have hrow := @Tbi.rowAt_span header.bits header.shape header.width header.height
      header.canvasWidth header.canvasHeight y
    refine ⟨hx, hcount, hbytes, hrow.1, hrow.2.2, fun index hindex => ?_⟩
    exact Tbi.pixel_index ⟨by omega, by omega⟩ ⟨by omega, hindex⟩
  · have hround : decide (header.shape = 1) = decide ((header.shape : ℤ) = 1) := by
      rcases hshape with hrect | hround
      · rw [hrect]
        rfl
      · rw [hround]
        rfl
    rw [hround]
    exact Api.tbiSize_eq sqrt hcanvas
  · intro value
    have hword := Tbi.uint32_radicand hcanvas ⟨hlow, hhigh⟩
    have hroot : value.toNat < 2 ^ 32 := hword ▸ Watch.uint32_lt value
    have hisqrt : IntegerSqrt.isqrt (uint32 value) = Nat.sqrt value.toNat := by
      rw [hword, IntegerSqrt.isqrt_eq_sqrt hroot]
    exact ⟨hisqrt, (Watch.tbImageIsqrt_eq (Watch.uint32_lt value)).trans hisqrt,
      Api.tbiHalf_eq_sqrt sqrt value⟩

def roundHeader : Watch.TbImageHeader :=
  { bits := 2, shape := 1, width := 180, height := 180, canvasWidth := 180, canvasHeight := 180 }

theorem geometry_agrees_round :
    (Watch.tbImageSize roundHeader : ℤ) = Tbi.size 2 1 180 180 180 180 ∧
      Api.tbiSize (fun _ => 0) 2 true 180 180 180 180 = Tbi.size 2 1 180 180 180 180 := by
  have hfits : Tbi.Fits roundHeader.bits roundHeader.width roundHeader.height
      roundHeader.canvasWidth roundHeader.canvasHeight := by
    constructor <;> decide
  obtain ⟨-, hwatch, hapi, -⟩ := geometry_agrees (fun _ => 0) roundHeader (Or.inr rfl) hfits
  exact ⟨hwatch, hapi⟩
