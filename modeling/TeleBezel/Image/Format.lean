import TeleBezel.Lib.Lz

/-!
# The TBI format

A TBI stream is a header of 22 bytes, a palette and a body; the header carries the CRC-32 of the
packed pixels that the body decodes to. The body is a list of operations
on the bytes decoded so far: a literal of up to 128 bytes, a run of 3 to 66 equal bytes, or a
copy of 3 to 66 bytes from up to 65535 bytes back. The first byte of an operation tells its kind
and its count.
-/

namespace Watch

def crcBit (crc : UInt32) : UInt32 := (crc >>> 1) ^^^ (0xEDB88320 &&& (0 - (crc &&& 1)))

/-- `tb_image_crc`: the reflected CRC-32, bit by bit. -/
def tbImageCrc (crc : UInt32) (data : List UInt8) : UInt32 :=
  ~~~ data.foldl (fun crc byte => Nat.repeat crcBit 8 (crc ^^^ byte.toUInt32)) (~~~ crc)

end Watch

namespace Tbi

open Lz

/-- `HeaderSize`, the same number as `TB_IMAGE_HEADER_SIZE`. -/
def headerSize : ℕ := 22

/-- `MaxColors`, the same number as `TB_IMAGE_MAX_COLORS`. -/
def maxColors : ℕ := 16

def opBytes : Op UInt8 → List UInt8
  | .literal symbols => UInt8.ofNat (symbols.length - 1) :: symbols
  | .run count symbol => [UInt8.ofNat (0x80 ||| (count - 3)), symbol]
  | .copy count distance =>
    [UInt8.ofNat (0xC0 ||| (count - 3)), UInt8.ofNat distance, UInt8.ofNat (distance >>> 8)]

def InFormat : Op UInt8 → Prop
  | .literal symbols => 1 ≤ symbols.length ∧ symbols.length ≤ 128
  | .run count _ => 3 ≤ count ∧ count ≤ 66
  | .copy count distance => 3 ≤ count ∧ count ≤ 66 ∧ distance < 65536

def bodyBytes (ops : List (Op UInt8)) : List UInt8 := ops.flatMap opBytes

@[simp] theorem bodyBytes_nil : bodyBytes [] = [] := rfl

@[simp] theorem bodyBytes_cons (op : Op UInt8) (ops : List (Op UInt8)) :
    bodyBytes (op :: ops) = opBytes op ++ bodyBytes ops := rfl

@[simp] theorem bodyBytes_append (ops ops' : List (Op UInt8)) :
    bodyBytes (ops ++ ops') = bodyBytes ops ++ bodyBytes ops' := List.flatMap_append

theorem literal_code {n : ℕ} (h₁ : 1 ≤ n) (h : n ≤ 128) :
    UInt8.ofNat (n - 1) < 0x80 ∧ (UInt8.ofNat (n - 1)).toNat + 1 = n := by
  obtain ⟨m, rfl⟩ : ∃ m, n = m + 1 := ⟨n - 1, by omega⟩
  have hm : m < 128 := by omega
  have key : ∀ m : Fin 128, UInt8.ofNat m < 0x80 ∧ (UInt8.ofNat m).toNat + 1 = m + 1 := by decide
  exact key ⟨m, hm⟩

theorem run_code {n : ℕ} (h₃ : 3 ≤ n) (h : n ≤ 66) :
    let code := UInt8.ofNat (0x80 ||| (n - 3))
    ¬ code < 0x80 ∧ code < 0xC0 ∧ (code &&& 0x3F).toNat + 3 = n := by
  obtain ⟨m, rfl⟩ : ∃ m, n = m + 3 := ⟨n - 3, by omega⟩
  have hm : m < 64 := by omega
  have key : ∀ m : Fin 64, ¬ UInt8.ofNat (0x80 ||| m) < 0x80 ∧ UInt8.ofNat (0x80 ||| m) < 0xC0 ∧
      (UInt8.ofNat (0x80 ||| m) &&& 0x3F).toNat + 3 = m + 3 := by decide
  exact key ⟨m, hm⟩

theorem copy_code {n : ℕ} (h₃ : 3 ≤ n) (h : n ≤ 66) :
    let code := UInt8.ofNat (0xC0 ||| (n - 3))
    ¬ code < 0x80 ∧ ¬ code < 0xC0 ∧ (code &&& 0x3F).toNat + 3 = n := by
  obtain ⟨m, rfl⟩ : ∃ m, n = m + 3 := ⟨n - 3, by omega⟩
  have hm : m < 64 := by omega
  have key : ∀ m : Fin 64, ¬ UInt8.ofNat (0xC0 ||| m) < 0x80 ∧ ¬ UInt8.ofNat (0xC0 ||| m) < 0xC0 ∧
      (UInt8.ofNat (0xC0 ||| m) &&& 0x3F).toNat + 3 = m + 3 := by decide
  exact key ⟨m, hm⟩

end Tbi
