import TeleBezel.Image.Compress
import TeleBezel.Image.Geometry
import TeleBezel.Lib.BitPack

/-!
# The encoder of the renderer

`Pack` stores the visible pixels of each row, most significant bits first; `Encode` checks an
image and writes its header, its palette and the compressed rows.
-/

namespace Tbi

open Word

/-- `Image`, its integers unbounded: the checks of `encode` leave small ones only. -/
structure Image where
  bits : ℤ
  shape : ℤ
  width : ℤ
  height : ℤ
  canvasWidth : ℤ
  canvasHeight : ℤ
  tag : UInt32
  palette : List UInt8
  pixels : List UInt8

namespace Image

variable (image : Image)

/-- The stored part of row `y`. -/
def row (y : ℤ) : Row :=
  rowAt image.bits image.shape image.width image.height image.canvasWidth image.canvasHeight y

/-- `Size` of the image. -/
def size : ℤ :=
  Tbi.size image.bits image.shape image.width image.height image.canvasWidth image.canvasHeight

def pixel (y column : ℤ) : UInt8 :=
  image.pixels.getD (y * image.width + column).toNat 0

def mask : UInt8 := UInt8.ofNat ((1 <<< image.bits.toNat) - 1)

/-- The pixels that row `y` stores. -/
def rowPixels (y : ℕ) : List UInt8 :=
  (List.range (image.row y).count.toNat).map fun index : ℕ =>
    image.pixel y ((image.row y).x + index) &&& image.mask

/-- The bytes of row `y`: each pixel joins the cleared bytes by an `or`. -/
def packRow (y : ℕ) : List UInt8 :=
  BitPack.putAll image.bits.toNat (List.replicate (image.row y).bytes.toNat 0) (image.rowPixels y)

def pack : List UInt8 := (List.range image.height.toNat).flatMap image.packRow

def header : List UInt8 :=
  [0x54, 0x42, 1, byteOf image.bits, byteOf image.shape, UInt8.ofNat image.palette.length] ++
    bytes16 (uint16 image.width) ++ bytes16 (uint16 image.height) ++
    bytes16 (uint16 image.canvasWidth) ++ bytes16 (uint16 image.canvasHeight) ++
    bytes32 image.tag.toNat ++ bytes32 (Watch.tbImageCrc 0 image.pack).toNat

/-- `Encode`. The checksum of `hash/crc32` is the one the watch computes bit by bit. -/
def encode : Except String (List UInt8) :=
  if image.bits ≠ 1 ∧ image.bits ≠ 2 ∧ image.bits ≠ 4 then .error "unsupported bit depth"
  else if image.palette.length = 0 ∨ 1 <<< image.bits.toNat < image.palette.length ∨
      maxColors < image.palette.length then .error "invalid palette"
  else if image.width ≤ 0 ∨ image.height ≤ 0 ∨ image.canvasWidth < image.width ∨
      image.canvasHeight < image.height ∨ image.pixels.length ≠ image.width * image.height then
    .error "invalid geometry"
  else .ok (image.header ++ image.palette ++ compress image.pack)

/-- The images that `encode` accepts. -/
structure Accepted (image : Image) : Prop where
  bits : image.bits = 1 ∨ image.bits = 2 ∨ image.bits = 4
  palette_pos : 0 < image.palette.length
  palette_le : image.palette.length ≤ 2 ^ image.bits.toNat
  width_pos : 0 < image.width
  height_pos : 0 < image.height
  width_le : image.width ≤ image.canvasWidth
  height_le : image.height ≤ image.canvasHeight
  pixels : image.pixels.length = image.width * image.height

theorem two_pow_bits_le {image : Image} (h : image.bits = 1 ∨ image.bits = 2 ∨ image.bits = 4) :
    2 ^ image.bits.toNat ≤ maxColors := by
  rcases h with h | h | h <;> rw [h] <;> decide

theorem encode_eq_ok_iff {image : Image} {stream : List UInt8} :
    image.encode = .ok stream ↔
      image.Accepted ∧ stream = image.header ++ image.palette ++ compress image.pack := by
  unfold encode
  rw [Nat.shiftLeft_eq, Nat.one_mul]
  split_ifs with hbits hpalette hgeometry
  · simp only [false_iff, not_and]
    intro h
    have := h.bits
    omega
  · simp only [false_iff, not_and]
    intro h
    have := h.palette_pos
    have := h.palette_le
    have := two_pow_bits_le h.bits
    omega
  · simp only [false_iff, not_and]
    intro h
    obtain ⟨-, -, -, h₁, h₂, h₃, h₄, h₅⟩ := h
    omega
  · have haccepted : image.Accepted := by constructor <;> omega
    simp only [Except.ok.injEq, haccepted, true_and]
    exact eq_comm

theorem row_span (y : ℤ) :
    0 ≤ (image.row y).x ∧ 0 ≤ (image.row y).count ∧
      (0 < (image.row y).count → (image.row y).x + (image.row y).count ≤ image.width) :=
  rowAt_span

theorem length_packRow (y : ℕ) :
    (image.packRow y).length = (image.row y).bytes.toNat := by
  simp [packRow]

theorem length_rowPixels (y : ℕ) :
    (image.rowPixels y).length = (image.row y).count.toNat := by
  simp [rowPixels]

theorem toNat_and_mask_lt (value : UInt8) (hbits : image.bits.toNat ≤ 8) :
    (value &&& image.mask).toNat < 2 ^ image.bits.toNat := by
  have hpow : 2 ^ image.bits.toNat ≤ 2 ^ 8 := Nat.pow_le_pow_right (by decide) hbits
  have hpos : 0 < 2 ^ image.bits.toNat := Nat.two_pow_pos _
  have hmask : image.mask.toNat = 2 ^ image.bits.toNat - 1 := by
    rw [mask, Nat.shiftLeft_eq, Nat.one_mul, UInt8.toNat_ofNat']
    omega
  rw [UInt8.toNat_and, hmask]
  exact Nat.and_lt_two_pow _ (by omega)

theorem bits_dvd {image : Image} (h : image.bits = 1 ∨ image.bits = 2 ∨ image.bits = 4) :
    image.bits.toNat ∣ 8 := by
  rcases h with h | h | h <;> rw [h] <;> decide

theorem field_packRow {image : Image} (h : image.Accepted) (y : ℕ) {index : ℕ}
    (hindex : index < (image.row y).count.toNat) :
    BitPack.field image.bits.toNat (image.packRow y) index =
      (image.pixel y ((image.row y).x + index) &&& image.mask).toNat := by
  have hbits := bits_dvd h.bits
  have hle : image.bits.toNat ≤ 8 := Nat.le_of_dvd (by decide) hbits
  have hvalues : ∀ value ∈ image.rowPixels y, value.toNat < 2 ^ image.bits.toNat := by
    intro value hvalue
    obtain ⟨i, -, rfl⟩ := List.mem_map.mp hvalue
    exact image.toNat_and_mask_lt _ hle
  have hroom : (image.rowPixels y).length * image.bits.toNat ≤ (image.row y).bytes.toNat * 8 := by
    have hcount := (image.row_span y).2.1
    have hbytes : (image.row y).bytes = ((image.row y).count * image.bits + 7).tdiv 8 := rfl
    obtain ⟨n, hn⟩ := Int.eq_ofNat_of_zero_le hcount
    obtain ⟨b, hb⟩ := Int.eq_ofNat_of_zero_le (show 0 ≤ image.bits by have := h.bits; omega)
    rw [length_rowPixels, hbytes, hn, hb, Int.tdiv_eq_ediv_of_nonneg (by positivity)]
    simp only [Int.toNat_natCast]
    omega
  rw [packRow, BitPack.field_putAll hbits _ hvalues hroom]
  congr 1
  simp [rowPixels, List.getD, hindex]

theorem getElem?_pixels {image : Image} (h : image.Accepted) {y index : ℕ} (hy : y < image.height)
    (hindex : index < (image.row y).count) :
    image.pixels[(y * image.width + ((image.row y).x + index)).toNat]? =
      some (image.pixel y ((image.row y).x + index)) := by
  obtain ⟨hx, -, hspan⟩ := image.row_span y
  have hcolumn := hspan (by omega)
  have hrows : ((y : ℤ) + 1) * image.width ≤ image.height * image.width :=
    mul_le_mul_of_nonneg_right hy h.width_pos.le
  have hlt : (y * image.width + ((image.row y).x + index)).toNat < image.pixels.length := by
    have hpixels := h.pixels
    rw [mul_comm] at hpixels
    rw [add_mul] at hrows
    have hfirst := mul_nonneg (Int.natCast_nonneg y) h.width_pos.le
    omega
  simp [pixel, List.getD, List.getElem?_eq_getElem hlt]

end Image

end Tbi
