import Mathlib.Data.List.Basic
import Mathlib.Tactic.Ring

/-!
# Back-reference compression, abstractly

A compressed text is a list of operations on the text decoded so far: append a literal, append
a run of one symbol, or append a copy of what stands `distance` symbols before the end, symbol
by symbol, so that a copy may read what it has just written.
-/

namespace Lz

variable {β : Type*}

inductive Op (β : Type*)
  | literal (symbols : List β)
  | run (count : ℕ) (symbol : β)
  | copy (count distance : ℕ)

/-- Append `count` symbols, each the one `distance` before the end. -/
def copyBack (distance : ℕ) : ℕ → List β → List β
  | 0, out => out
  | count + 1, out =>
    match out[out.length - distance]? with
    | some symbol => copyBack distance count (out ++ [symbol])
    | none => out

namespace Op

def apply (out : List β) : Op β → List β
  | literal symbols => out ++ symbols
  | run count symbol => out ++ List.replicate count symbol
  | copy count distance => copyBack distance count out

def count : Op β → ℕ
  | literal symbols => symbols.length
  | run count _ => count
  | copy count _ => count

def Valid (out : List β) : Op β → Prop
  | literal symbols => symbols ≠ []
  | run count _ => 0 < count
  | copy count distance => 0 < count ∧ 0 < distance ∧ distance ≤ out.length

end Op

theorem copyBack_succ {out : List β} {distance : ℕ} (hd : 0 < distance)
    (hle : distance ≤ out.length) (count : ℕ) :
    ∃ symbol, out[out.length - distance]? = some symbol ∧
      copyBack distance (count + 1) out = copyBack distance count (out ++ [symbol]) := by
  have hlt : out.length - distance < out.length := by omega
  exact ⟨out[out.length - distance], List.getElem?_eq_getElem hlt,
    by simp [copyBack, List.getElem?_eq_getElem hlt]⟩

theorem length_copyBack {distance : ℕ} (hd : 0 < distance) (count : ℕ) :
    ∀ {out : List β}, distance ≤ out.length →
      (copyBack distance count out).length = out.length + count := by
  induction count with
  | zero => intro out _; rfl
  | succ count ih =>
    intro out hle
    obtain ⟨symbol, -, h⟩ := copyBack_succ hd hle count
    have hle' : distance ≤ (out ++ [symbol]).length := by simp; omega
    rw [h, ih hle']
    simp
    omega

theorem Op.length_apply {out : List β} {op : Op β} (h : op.Valid out) :
    (op.apply out).length = out.length + op.count := by
  cases op with
  | literal symbols | run count symbol => simp [Op.apply, Op.count]
  | copy count distance => exact length_copyBack h.2.1 count h.2.2

theorem Op.count_pos {out : List β} {op : Op β} (h : op.Valid out) : 0 < op.count := by
  cases op with
  | literal symbols => exact List.length_pos_iff.mpr h
  | run count symbol => exact h
  | copy count distance => exact h.1

/-- **A compared copy.** Where the text repeats itself at `distance`, copying extends a prefix
of the text to a longer one, also when the copy reads what it writes. -/
theorem copyBack_take (text : List β) {position distance : ℕ} (hd : 0 < distance)
    (hle : distance ≤ position) (count : ℕ) (hlen : position + count ≤ text.length)
    (hsame : ∀ k < count, text[position - distance + k]? = text[position + k]?) :
    copyBack distance count (text.take position) = text.take (position + count) := by
  induction count generalizing position with
  | zero => rfl
  | succ count ih =>
    have hpos : position < text.length := by omega
    have htake : (text.take position).length = position := by simp; omega
    obtain ⟨symbol, hs, h⟩ := copyBack_succ hd (htake.symm ▸ hle) count
    have hsymbol : text[position]? = some symbol := by
      rw [htake, List.getElem?_take_of_lt (by omega)] at hs
      simpa [hs] using (hsame 0 (by omega)).symm
    have hnext : text.take position ++ [symbol] = text.take (position + 1) := by
      rw [List.take_add_one, hsymbol]
      rfl
    rw [h, hnext, ih (by omega) (by omega) (fun k hk => ?_)]
    · congr 1
      omega
    · have := hsame (k + 1) (by omega)
      rw [show position + 1 - distance + k = position - distance + (k + 1) by omega, this]
      congr 1
      omega

def expand (out : List β) (ops : List (Op β)) : List β := ops.foldl Op.apply out

def ValidFrom : List β → List (Op β) → Prop
  | _, [] => True
  | out, op :: ops => op.Valid out ∧ ValidFrom (op.apply out) ops

@[simp] theorem expand_nil (out : List β) : expand out [] = out := rfl

@[simp] theorem expand_cons (out : List β) (op : Op β) (ops : List (Op β)) :
    expand out (op :: ops) = expand (op.apply out) ops := rfl

theorem expand_append (out : List β) (ops ops' : List (Op β)) :
    expand out (ops ++ ops') = expand (expand out ops) ops' := List.foldl_append

theorem validFrom_append {out : List β} {ops ops' : List (Op β)} :
    ValidFrom out (ops ++ ops') ↔ ValidFrom out ops ∧ ValidFrom (expand out ops) ops' := by
  induction ops generalizing out with
  | nil => simp [ValidFrom]
  | cons op ops ih => simp [ValidFrom, ih, and_assoc]

theorem length_le_expand {out : List β} {ops : List (Op β)} (h : ValidFrom out ops) :
    out.length ≤ (expand out ops).length := by
  induction ops generalizing out with
  | nil => exact Nat.le_refl _
  | cons op ops ih =>
    have hlen := Op.length_apply h.1
    have := ih h.2
    rw [expand_cons]
    omega

end Lz
