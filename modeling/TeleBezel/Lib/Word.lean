import Mathlib.Data.Nat.Bitwise
import Mathlib.Tactic.Ring

/-!
# Fixed-width words over the integers

Conversions between the mathematical integers and the machine words of C and Go, and numbers
written as little-endian bytes. A conversion to an unsigned word is the residue, one to a signed
word the residue nearest to zero, as two's complement hardware gives them.
-/

namespace Word

def uint16 (x : ℤ) : ℕ := (x % 65536).toNat

def uint32 (x : ℤ) : ℕ := (x % 4294967296).toNat

def int16 (x : ℤ) : ℤ := (x + 32768) % 65536 - 32768

def byteOf (x : ℤ) : UInt8 := UInt8.ofNat (x % 256).toNat

theorem uint16_of_lt {x : ℤ} (h : 0 ≤ x) (h' : x < 65536) : uint16 x = x.toNat := by
  rw [uint16, Int.emod_eq_of_lt h h']

theorem int16_of_lt {x : ℤ} (h : -32768 ≤ x) (h' : x < 32768) : int16 x = x := by
  unfold int16
  omega

@[simp] theorem byteOf_natCast (n : ℕ) : byteOf (n : ℤ) = UInt8.ofNat n := by
  apply UInt8.toNat_inj.mp
  simp only [byteOf, UInt8.toNat_ofNat', Nat.reducePow]
  omega

theorem toNat_byteOf_of_lt {n : ℕ} (h : n < 256) : (UInt8.ofNat n).toNat = n := by
  simpa using h

def little16 (low high : UInt8) : ℕ := low.toNat ||| (high.toNat <<< 8)

def little32 (b₀ b₁ b₂ b₃ : UInt8) : ℕ := little16 b₀ b₁ ||| (little16 b₂ b₃ <<< 16)

def bytes16 (n : ℕ) : List UInt8 := [UInt8.ofNat n, UInt8.ofNat (n >>> 8)]

def bytes32 (n : ℕ) : List UInt8 :=
  [UInt8.ofNat n, UInt8.ofNat (n >>> 8), UInt8.ofNat (n >>> 16), UInt8.ofNat (n >>> 24)]

theorem or_shiftLeft_eq_add {a b i : ℕ} (h : a < 2 ^ i) : a ||| (b <<< i) = a + b * 2 ^ i := by
  rw [Nat.or_comm, ← Nat.shiftLeft_add_eq_or_of_lt h, Nat.shiftLeft_eq, Nat.add_comm]

theorem little16_eq (low high : UInt8) : little16 low high = low.toNat + high.toNat * 256 :=
  or_shiftLeft_eq_add (i := 8) low.toNat_lt

theorem little16_lt (low high : UInt8) : little16 low high < 65536 := by
  rw [little16_eq]
  have := low.toNat_lt
  have := high.toNat_lt
  omega

theorem little32_eq (b₀ b₁ b₂ b₃ : UInt8) :
    little32 b₀ b₁ b₂ b₃ = little16 b₀ b₁ + little16 b₂ b₃ * 65536 :=
  or_shiftLeft_eq_add (i := 16) (little16_lt b₀ b₁)

theorem little16_bytes16 {n : ℕ} (h : n < 65536) :
    little16 (UInt8.ofNat n) (UInt8.ofNat (n >>> 8)) = n := by
  rw [little16_eq, Nat.shiftRight_eq_div_pow]
  simp only [UInt8.toNat_ofNat', Nat.reducePow]
  omega

theorem little32_bytes32 {n : ℕ} (h : n < 4294967296) :
    little32 (UInt8.ofNat n) (UInt8.ofNat (n >>> 8)) (UInt8.ofNat (n >>> 16))
      (UInt8.ofNat (n >>> 24)) = n := by
  rw [little32_eq, little16_eq, little16_eq]
  simp only [Nat.shiftRight_eq_div_pow, UInt8.toNat_ofNat', Nat.reducePow]
  omega

end Word
