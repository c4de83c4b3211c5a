import Mathlib.Data.List.Basic
import Mathlib.Tactic.Ring

/-!
# Exact readers

A reader takes a value from the front of a list and returns what it leaves. It is exact for a
writer when it reads exactly what the writer writes: nothing else is accepted, and a value and
what is left determine the list. What a value may be can depend on what is left behind it, as
for a value that takes the rest.
-/

open List

namespace Reader

variable {α β γ : Type}

/-- `read` accepts what `write` writes of a value that is `ok`, and nothing else. -/
def Exact (read : List α → Option (β × List α)) (write : β → List α)
    (ok : β → List α → Prop) : Prop :=
  ∀ input value rest, read input = some (value, rest) ↔ ok value rest ∧ input = write value ++ rest

variable {read : List α → Option (β × List α)} {ok : β → List α → Prop} {write : β → List α}

theorem Exact.read_write (h : Exact read write ok) {value : β} {rest : List α}
    (hok : ok value rest) : read (write value ++ rest) = some (value, rest) :=
  (h _ _ _).mpr ⟨hok, rfl⟩

def seq (read : List α → Option (β × List α)) (read' : β → List α → Option (γ × List α))
    (input : List α) : Option ((β × γ) × List α) := do
  let (value, input) ← read input
  let (value', input) ← read' value input
  return ((value, value'), input)

def map (f : β → γ) (read : List α → Option (β × List α)) (input : List α) :
    Option (γ × List α) :=
  (read input).map fun (value, rest) => (f value, rest)

theorem Exact.seq {read' : β → List α → Option (γ × List α)} {write' : β → γ → List α}
    {ok' : β → γ → List α → Prop} (h : Exact read write ok)
    (h' : ∀ value, Exact (read' value) (write' value) (ok' value)) :
    Exact (Reader.seq read read') (fun values => write values.1 ++ write' values.1 values.2)
      (fun values rest =>
        ok values.1 (write' values.1 values.2 ++ rest) ∧ ok' values.1 values.2 rest) := by
  rintro input ⟨value, value'⟩ rest
  constructor
  · intro hread
    simp only [Reader.seq, Option.bind_eq_bind, Option.bind_eq_some_iff, Option.pure_def, Option.some.injEq,
      Prod.exists, Prod.mk.injEq] at hread
    obtain ⟨first, middle, hfirst, second, last, hsecond, ⟨rfl, rfl⟩, rfl⟩ := hread
    obtain ⟨hok', rfl⟩ := (h' first _ _ _).mp hsecond
    obtain ⟨hok, rfl⟩ := (h _ _ _).mp hfirst
    exact ⟨⟨hok, hok'⟩, (append_assoc _ _ _).symm⟩
  · rintro ⟨⟨hok, hok'⟩, rfl⟩
    have hfirst := h.read_write hok
    have hsecond := (h' value).read_write hok'
    simp [Reader.seq, hfirst, hsecond]

theorem Exact.map (h : Exact read write ok) {f : β → γ} {g : γ → β}
    {ok' : γ → List α → Prop} (hf : ∀ value rest, ok value rest → ok' (f value) rest)
    (hg : ∀ value rest, ok' value rest → ok (g value) rest ∧ f (g value) = value)
    (hgf : ∀ value rest, ok value rest → g (f value) = value) :
    Exact (Reader.map f read) (write ∘ g) ok' := by
  intro input value rest
  rw [Reader.map, Option.map_eq_some_iff]
  constructor
  · rintro ⟨⟨first, rest'⟩, hread, heq⟩
    obtain ⟨rfl, rfl⟩ := Prod.mk.inj heq
    obtain ⟨hok, rfl⟩ := (h _ _ _).mp hread
    exact ⟨hf _ _ hok, by rw [Function.comp_apply, hgf _ _ hok]⟩
  · rintro ⟨hok, rfl⟩
    obtain ⟨hok', hvalue⟩ := hg _ _ hok
    exact ⟨(g value, rest), h.read_write hok', congrArg (·, rest) hvalue⟩

variable (size : ℕ)

/-- The next `size` elements. -/
def split (input : List α) : Option (List α × List α) :=
  if input.length < size then none else some (input.take size, input.drop size)

theorem exact_split :
    Exact (@split α size) id (fun value _ => value.length = size) := by
  intro input value rest
  rw [split]
  by_cases hlength : input.length < size
  · rw [if_pos hlength]
    refine iff_of_false nofun ?_
    rintro ⟨hvalue, rfl⟩
    rw [id, length_append] at hlength
    omega
  · rw [if_neg hlength, Option.some_inj, Prod.mk.injEq]
    constructor
    · rintro ⟨rfl, rfl⟩
      exact ⟨length_take_of_le (by omega), (take_append_drop _ _).symm⟩
    · rintro ⟨rfl, rfl⟩
      exact ⟨take_left, drop_left⟩

/-! ### Numbers -/

variable (bytes : List UInt8)

def little : ℕ := bytes.foldr (fun byte value => byte.toNat + value * 256) 0

/-- The `size` bytes of a number, the low byte first. -/
def littleBytes : ℕ → ℕ → List UInt8
  | 0, _ => []
  | size + 1, value => UInt8.ofNat value :: littleBytes size (value / 256)

@[simp] theorem length_littleBytes (value : ℕ) : (littleBytes size value).length = size := by
  induction size generalizing value with
  | zero => rfl
  | succ size ih => rw [littleBytes, length_cons, ih]

theorem little_cons (byte : UInt8) (bytes : List UInt8) :
    little (byte :: bytes) = byte.toNat + little bytes * 256 := rfl

theorem little_append (bytes' : List UInt8) :
    little (bytes ++ bytes') = little bytes + little bytes' * 256 ^ bytes.length := by
  induction bytes with
  | nil => rw [nil_append, length_nil, Nat.pow_zero, Nat.mul_one]; exact (Nat.zero_add _).symm
  | cons byte bytes ih =>
    rw [cons_append, little_cons, little_cons, ih, length_cons, Nat.pow_succ, Nat.add_mul,
      Nat.mul_assoc, Nat.add_assoc]

theorem little_lt : little bytes < 256 ^ bytes.length := by
  induction bytes with
  | nil => exact Nat.one_pos
  | cons byte bytes ih =>
    have hbyte : byte.toNat < 256 := byte.toNat_lt
    rw [little_cons, length_cons, Nat.pow_succ]
    omega

theorem little_littleBytes {size value : ℕ} (h : value < 256 ^ size) :
    little (littleBytes size value) = value := by
  induction size generalizing value with
  | zero => exact (Nat.lt_one_iff.mp h).symm
  | succ size ih =>
    rw [Nat.pow_succ] at h
    rw [littleBytes, little_cons, ih (Nat.div_lt_of_lt_mul (by omega)), UInt8.toNat_ofNat']
    omega

theorem littleBytes_little : littleBytes bytes.length (little bytes) = bytes := by
  induction bytes with
  | nil => rfl
  | cons byte bytes ih =>
    have hbyte : byte.toNat < 256 := byte.toNat_lt
    rw [length_cons, littleBytes, little_cons]
    congr 1
    · apply UInt8.toNat_inj.mp
      rw [UInt8.toNat_ofNat']
      omega
    · rw [show (byte.toNat + little bytes * 256) / 256 = little bytes by omega]
      exact ih

/-- A number of `size` bytes. -/
def number : List UInt8 → Option (ℕ × List UInt8) := map little (split size)

theorem exact_number :
    Exact (number size) (littleBytes size) (fun value _ => value < 256 ^ size) := by
  refine @Exact.map _ _ _ _ _ _ (exact_split size) little (littleBytes size) _ ?_ ?_ ?_
  · rintro bytes _ rfl
    exact little_lt bytes
  · exact fun value _ h => ⟨length_littleBytes size value, little_littleBytes h⟩
  · rintro bytes _ rfl
    exact littleBytes_little bytes

end Reader
