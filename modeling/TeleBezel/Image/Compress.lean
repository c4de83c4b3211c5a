import TeleBezel.Image.Format
import Mathlib.Data.Int.Notation

/-!
# The compressor of the renderer

`Compress` of `backend-media/internal/tbi/tbi.go` walks the packed bytes once. At each position
it measures the run that starts there and looks for the longest earlier match along the chain of
positions with the same three bytes; it emits the run, the match, or keeps the byte for a
literal. What it emits is a list of valid operations that decodes to its input, whatever the
chains hold: a match is emitted only after its bytes were compared.
-/

open List

namespace Tbi

open Lz

/-- The state of `Compress`: `heads` and `previous` chain the positions with equal keys. -/
structure Compressor where
  out : List UInt8 := []
  literal : List UInt8 := []
  heads : ℕ → Option ℕ := fun _ => none
  previous : ℕ → ℤ := fun _ => 0
  position : ℕ := 0

def window : ℤ := 4096

/-- The loop of `flush`: literals of at most 128 bytes. -/
def flushParts : ℕ → List UInt8 → List UInt8 → List UInt8
  | 0, _, out => out
  | fuel + 1, literal, out =>
    if literal = [] then out
    else
      let part := literal.take 128
      flushParts fuel (literal.drop part.length) (out ++ UInt8.ofNat (part.length - 1) :: part)

def Compressor.flush (c : Compressor) : Compressor :=
  { c with out := flushParts c.literal.length c.literal c.out, literal := [] }

/-- `key`: three bytes as one number. -/
def key (data : List UInt8) (position : ℕ) : ℕ :=
  (data.getD position 0).toNat ||| ((data.getD (position + 1) 0).toNat <<< 8) |||
    ((data.getD (position + 2) 0).toNat <<< 16)

/-- `insert`: a position becomes the head of the chain of its key. -/
def Compressor.insert (data : List UInt8) (c : Compressor) (position : ℕ) : Compressor :=
  if data.length ≤ position + 2 then c
  else
    let k := key data position
    { c with
      previous := Function.update c.previous position
        (match c.heads k with
          | some head => (head : ℤ)
          | none => -1)
      heads := Function.update c.heads k (some position) }

/-- The positions `position`, `position + 1`, ... of `count` emitted bytes join their chains. -/
def Compressor.insertAll (data : List UInt8) (c : Compressor) (count : ℕ) : Compressor :=
  (List.range count).foldl (fun c' step => c'.insert data (c.position + step)) c

/-- The length of the run of equal bytes, from `run` on. -/
def runLength (data : List UInt8) (position : ℕ) : ℕ → ℕ → ℕ
  | 0, run => run
  | fuel + 1, run =>
    if position + run < data.length ∧ data.getD (position + run) 0 = data.getD position 0 ∧ run < 66
    then runLength data position fuel (run + 1)
    else run

/-- The length of the match between a candidate and the position, from `length` on. -/
def matchLength (data : List UInt8) (candidate position : ℕ) : ℕ → ℕ → ℕ
  | 0, length => length
  | fuel + 1, length =>
    if position + length < data.length ∧ length < 66 ∧
        data.getD (candidate + length) 0 = data.getD (position + length) 0
    then matchLength data candidate position fuel (length + 1)
    else length

def search (data : List UInt8) (previous : ℕ → ℤ) (position : ℕ) : ℕ → ℤ → ℕ × ℕ → ℕ × ℕ
  | 0, _, found => found
  | fuel + 1, candidate, found =>
    if 0 ≤ candidate ∧ (position : ℤ) - candidate ≤ window then
      let length := matchLength data candidate.toNat position 66 0
      let found := if found.1 < length then (length, position - candidate.toNat) else found
      search data previous position fuel (previous candidate.toNat) found
    else found

/-- The best match at the position of the compressor, `(0, 0)` without one. -/
def Compressor.best (data : List UInt8) (c : Compressor) : ℕ × ℕ :=
  if c.position + 2 < data.length then
    match c.heads (key data c.position) with
    | some candidate => search data c.previous c.position 64 candidate (0, 0)
    | none => (0, 0)
  else (0, 0)

/-- An emitted operation: the pending literal first, then its bytes; `count` bytes are done. -/
def Compressor.emit (data : List UInt8) (c : Compressor) (op : Op UInt8) : Compressor :=
  let c := c.flush
  let c := { c with out := c.out ++ opBytes op }
  { c.insertAll data op.count with position := c.position + op.count }

/-- One round of the loop of `Compress`. -/
def compressStep (data : List UInt8) (c : Compressor) : Compressor :=
  let run := runLength data c.position 66 1
  let best := c.best data
  if 3 ≤ run ∧ best.1 ≤ run then c.emit data (.run run (data.getD c.position 0))
  else if 4 ≤ best.1 then c.emit data (.copy best.1 best.2)
  else
    { c.insert data c.position with
      literal := c.literal ++ [data.getD c.position 0]
      position := c.position + 1 }

/-- The loop of `Compress`: every round moves on, so that the length of the data is fuel enough. -/
def compressLoop (data : List UInt8) : ℕ → Compressor → Compressor
  | 0, c => c
  | fuel + 1, c =>
    if c.position < data.length then compressLoop data fuel (compressStep data c) else c

def compress (data : List UInt8) : List UInt8 :=
  (compressLoop data data.length {}).flush.out

/-- The bytes `out` are the body of operations of the format that decode to `text`. -/
def Writes (out text : List UInt8) : Prop :=
  ∃ ops, out = bodyBytes ops ∧ ValidFrom [] ops ∧ (∀ op ∈ ops, InFormat op) ∧ expand [] ops = text

theorem writes_nil : Writes [] [] := ⟨[], rfl, trivial, by simp, rfl⟩

theorem Writes.snoc {out text : List UInt8} (h : Writes out text) {op : Op UInt8}
    (hvalid : op.Valid text) (hformat : InFormat op) : Writes (out ++ opBytes op) (op.apply text) := by
  obtain ⟨ops, rfl, hv, hf, rfl⟩ := h
  refine ⟨ops ++ [op], by simp, ?_, ?_, by simp [expand_append]⟩
  · rw [validFrom_append]
    exact ⟨hv, hvalid, trivial⟩
  · intro op' hop'
    rcases mem_append.mp hop' with hop' | hop'
    · exact hf op' hop'
    · rw [mem_singleton.mp hop']
      exact hformat

theorem Writes.flushParts {fuel : ℕ} :
    ∀ {literal out text : List UInt8}, literal.length ≤ fuel → Writes out text →
      Writes (flushParts fuel literal out) (text ++ literal) := by
  induction fuel with
  | zero =>
    intro literal out text hlen h
    rw [length_eq_zero_iff.mp (Nat.le_zero.mp hlen), append_nil]
    exact h
  | succ fuel ih =>
    intro literal out text hlen h
    rw [Tbi.flushParts]
    split_ifs with hempty
    · rw [hempty, append_nil]
      exact h
    · have hpos : 0 < literal.length := length_pos_iff.mpr hempty
      set part := literal.take 128 with hpart
      have hpartlen : part.length = min 128 literal.length := length_take
      have hsnoc : Writes (out ++ opBytes (.literal part)) (text ++ part) :=
        h.snoc (show Op.Valid text (.literal part) from length_pos_iff.mp (by omega))
          (show InFormat (.literal part) from ⟨by omega, by omega⟩)
      have hrest : (literal.drop part.length).length ≤ fuel := by
        rw [length_drop]
        omega
      have hsplit : part ++ literal.drop part.length = literal := by
        rw [hpart, length_take]
        rcases Nat.le_total 128 literal.length with hle | hle
        · rw [Nat.min_eq_left hle, take_append_drop]
        · rw [Nat.min_eq_right hle, drop_length, append_nil, take_of_length_le hle]
      have := ih hrest hsnoc
      rwa [append_assoc, hsplit] at this

/-- The chains hold only positions before `bound`, and lead backwards. -/
def Compressor.Chained (bound : ℕ) (c : Compressor) : Prop :=
  (∀ k p, c.heads k = some p → p < bound) ∧ ∀ q : ℕ, c.previous q ≤ q

variable {data : List UInt8} {c : Compressor}

theorem Compressor.Chained.insert {bound : ℕ}
    (h : c.Chained bound) : (c.insert data bound).Chained (bound + 1) := by
  unfold Compressor.insert
  split_ifs
  · exact ⟨fun k p hp => Nat.lt_succ_of_lt (h.1 k p hp), h.2⟩
  · refine ⟨fun k p hp => ?_, fun q => ?_⟩
    · by_cases hk : k = key data bound
      · simp only [hk, Function.update_self, Option.some.injEq] at hp
        omega
      · simp only [Function.update_of_ne hk] at hp
        exact Nat.lt_succ_of_lt (h.1 k p hp)
    · by_cases hq : q = bound
      · simp only [hq, Function.update_self]
        split
        · rename_i head hhead
          have := h.1 _ _ hhead
          omega
        · omega
      · simp only [Function.update_of_ne hq]
        exact h.2 q

theorem Compressor.insert_eq (data : List UInt8) (c : Compressor) (position : ℕ) :
    (c.insert data position).out = c.out ∧ (c.insert data position).literal = c.literal := by
  unfold Compressor.insert
  split_ifs <;> exact ⟨rfl, rfl⟩

theorem Compressor.insertAll_spec (data : List UInt8) (h : c.Chained c.position) (count : ℕ) :
    (c.insertAll data count).Chained (c.position + count) ∧
      (c.insertAll data count).out = c.out ∧ (c.insertAll data count).literal = c.literal := by
  induction count with
  | zero => exact ⟨h, rfl, rfl⟩
  | succ count ih =>
    have hsucc : c.insertAll data (count + 1) =
        (c.insertAll data count).insert data (c.position + count) := by
      simp [Compressor.insertAll, range_succ]
    obtain ⟨hout, hliteral⟩ :=
      Compressor.insert_eq data (c.insertAll data count) (c.position + count)
    rw [hsucc, hout, hliteral]
    exact ⟨ih.1.insert, ih.2⟩

theorem getElem?_eq_some_getD {i : ℕ} (h : i < data.length) :
    data[i]? = some (data.getD i 0) := by
  simp [List.getD, List.getElem?_eq_getElem h]

theorem runLength_spec (data : List UInt8) (position fuel : ℕ) :
    ∀ {run : ℕ}, run ≤ 66 → position + run ≤ data.length →
      (∀ k < run, data.getD (position + k) 0 = data.getD position 0) →
      let r := runLength data position fuel run
      run ≤ r ∧ r ≤ 66 ∧ position + r ≤ data.length ∧
        ∀ k < r, data.getD (position + k) 0 = data.getD position 0 := by
  induction fuel with
  | zero => intro run h66 hlen hsame; exact ⟨Nat.le_refl _, h66, hlen, hsame⟩
  | succ fuel ih =>
    intro run h66 hlen hsame
    rw [runLength]
    split_ifs with hmore
    · obtain ⟨hlt, heq, hrun⟩ := hmore
      have hsame' : ∀ k < run + 1, data.getD (position + k) 0 = data.getD position 0 := by
        intro k hk
        rcases Nat.lt_succ_iff_lt_or_eq.mp hk with hk | rfl
        · exact hsame k hk
        · exact heq
      obtain ⟨h₁, h₂⟩ := ih (by omega) (by omega) hsame'
      exact ⟨by omega, h₂⟩
    · exact ⟨Nat.le_refl _, h66, hlen, hsame⟩

theorem matchLength_spec (data : List UInt8) (candidate position fuel : ℕ) :
    ∀ {length : ℕ}, length ≤ 66 → position + length ≤ data.length →
      (∀ k < length, data.getD (candidate + k) 0 = data.getD (position + k) 0) →
      let l := matchLength data candidate position fuel length
      l ≤ 66 ∧ position + l ≤ data.length ∧
        ∀ k < l, data.getD (candidate + k) 0 = data.getD (position + k) 0 := by
  induction fuel with
  | zero => intro length h66 hlen hsame; exact ⟨h66, hlen, hsame⟩
  | succ fuel ih =>
    intro length h66 hlen hsame
    rw [matchLength]
    split_ifs with hmore
    · obtain ⟨hlt, hlength, heq⟩ := hmore
      refine ih (by omega) (by omega) (fun k hk => ?_)
      rcases Nat.lt_succ_iff_lt_or_eq.mp hk with hk | rfl
      · exact hsame k hk
      · exact heq
    · exact ⟨h66, hlen, hsame⟩

def Matches (data : List UInt8) (position : ℕ) (found : ℕ × ℕ) : Prop :=
  found.1 = 0 ∨
    (0 < found.2 ∧ found.2 ≤ position ∧ found.2 ≤ 4096 ∧ found.1 ≤ 66 ∧
      position + found.1 ≤ data.length ∧
      ∀ k < found.1, data[position - found.2 + k]? = data[position + k]?)

theorem search_spec {previous : ℕ → ℤ} {position : ℕ}
    (hprevious : ∀ q : ℕ, previous q ≤ q) (hposition : position ≤ data.length) (fuel : ℕ) :
    ∀ {candidate : ℤ} {found : ℕ × ℕ}, candidate < position → Matches data position found →
      Matches data position (search data previous position fuel candidate found) := by
  induction fuel with
  | zero => intro candidate found _ h; exact h
  | succ fuel ih =>
    intro candidate found hlt h
    rw [search]
    split_ifs with hnear
    · obtain ⟨hnonneg, hwindow⟩ := hnear
      obtain ⟨start, rfl⟩ := Int.eq_ofNat_of_zero_le hnonneg
      simp only [window, Int.toNat_natCast] at hwindow ⊢
      have hback := hprevious start
      apply ih (by omega)
      obtain ⟨h66, hlen, hsame⟩ := matchLength_spec data start position 66 (Nat.zero_le 66)
        (show position + 0 ≤ data.length from hposition) (by omega)
      split_ifs with hbetter
      · refine Or.inr ⟨by omega, by omega, by omega, h66, hlen, fun k hk => ?_⟩
        rw [show position - (position - start) + k = start + k by omega,
          getElem?_eq_some_getD (by omega), getElem?_eq_some_getD (by omega), hsame k hk]
      · exact h
    · exact h

theorem Compressor.best_spec (h : c.Chained c.position)
    (hposition : c.position ≤ data.length) : Matches data c.position (c.best data) := by
  unfold Compressor.best
  split_ifs
  · split
    · rename_i candidate hhead
      exact search_spec h.2 hposition 64 (by exact_mod_cast h.1 _ _ hhead) (Or.inl rfl)
    · exact Or.inl rfl
  · exact Or.inl rfl

/-- The invariant of the loop: what is written, with the pending literal, decodes to the input
before the position, and the chains hold earlier positions only. -/
structure Compressor.Sound (data : List UInt8) (c : Compressor) : Prop where
  position_le : c.position ≤ data.length
  chained : c.Chained c.position
  writes : ∃ text, Writes c.out text ∧ text ++ c.literal = data.take c.position

theorem Compressor.Sound.flush (h : c.Sound data) :
    Writes c.flush.out (data.take c.position) := by
  obtain ⟨text, hwrites, htext⟩ := h.writes
  rw [← htext]
  exact hwrites.flushParts (Nat.le_refl _)

theorem Compressor.Sound.emit (h : c.Sound data)
    {op : Op UInt8} (hle : c.position + op.count ≤ data.length)
    (hvalid : op.Valid (data.take c.position)) (hformat : InFormat op)
    (happly : op.apply (data.take c.position) = data.take (c.position + op.count)) :
    (c.emit data op).Sound data := by
  obtain ⟨hchained, hout, hliteral⟩ := Compressor.insertAll_spec data
    (c := { c.flush with out := c.flush.out ++ opBytes op }) h.chained op.count
  refine ⟨hle, hchained, data.take (c.position + op.count), ?_, ?_⟩
  · simp only [Compressor.emit]
    rw [hout, ← happly]
    exact h.flush.snoc hvalid hformat
  · simp only [Compressor.emit]
    rw [hliteral]
    exact append_nil _

theorem Compressor.Sound.keep (h : c.Sound data) (hlt : c.position < data.length) :
    ({ c.insert data c.position with
        literal := c.literal ++ [data.getD c.position 0]
        position := c.position + 1 } : Compressor).Sound data := by
  obtain ⟨text, hwrites, htext⟩ := h.writes
  refine ⟨hlt, h.chained.insert, text, ?_, ?_⟩
  · simp only [(Compressor.insert_eq data c c.position).1]
    exact hwrites
  · rw [← append_assoc, htext, take_add_one, getElem?_eq_some_getD hlt]
    rfl

theorem take_append_replicate {position run : ℕ} (hle : position + run ≤ data.length)
    (hsame : ∀ k < run, data.getD (position + k) 0 = data.getD position 0) :
    data.take position ++ List.replicate run (data.getD position 0) =
      data.take (position + run) := by
  induction run with
  | zero => simp
  | succ run ih =>
    rw [replicate_succ', ← append_assoc, ih (by omega) (fun k hk => hsame k (by omega)),
      ← Nat.add_assoc, take_add_one, getElem?_eq_some_getD (by omega), hsame run (by omega)]
    rfl

theorem compressStep_sound (h : c.Sound data)
    (hlt : c.position < data.length) : (compressStep data c).Sound data := by
  obtain ⟨-, h66, hlen, hsame⟩ := runLength_spec data c.position 66 (show 1 ≤ 66 by decide)
    hlt (by simp)
  have hbest := c.best_spec h.chained h.position_le
  unfold compressStep
  generalize runLength data c.position 66 1 = run at *
  generalize c.best data = best at *
  have hlength : (data.take c.position).length = c.position := by
    rw [length_take]
    omega
  simp only
  split_ifs with hrun hcopy
  · exact h.emit hlen (show 0 < run by omega) ⟨hrun.1, h66⟩ (take_append_replicate hlen hsame)
  · rcases hbest with hnone | ⟨hpos, hback, hwindow, hle66, hle, hcompared⟩
    · omega
    · exact h.emit hle ⟨show 0 < best.1 by omega, hpos, by rw [hlength]; exact hback⟩
        ⟨by omega, hle66, by omega⟩ (copyBack_take data hpos hback best.1 hle hcompared)
  · exact h.keep hlt

theorem position_lt_compressStep (data : List UInt8) (c : Compressor) :
    c.position < (compressStep data c).position := by
  unfold compressStep
  simp only
  split_ifs <;> simp only [Compressor.emit, Op.count, Compressor.flush] <;> omega

theorem compressLoop_spec (fuel : ℕ) :
    ∀ {c : Compressor}, c.Sound data → data.length ≤ c.position + fuel →
      (compressLoop data fuel c).Sound data ∧
        (compressLoop data fuel c).position = data.length := by
  induction fuel with
  | zero =>
    intro c h hfuel
    exact ⟨h, Nat.le_antisymm h.position_le hfuel⟩
  | succ fuel ih =>
    intro c h hfuel
    rw [compressLoop]
    split_ifs with hlt
    · have hmoved := position_lt_compressStep data c
      exact ih (compressStep_sound h hlt) (by omega)
    · exact ⟨h, Nat.le_antisymm h.position_le (Nat.le_of_not_lt hlt)⟩

theorem exists_ops_compress (data : List UInt8) :
    ∃ ops, compress data = bodyBytes ops ∧ ValidFrom [] ops ∧ (∀ op ∈ ops, InFormat op) ∧
      expand [] ops = data := by
  have hstart : ({} : Compressor).Sound data :=
    ⟨Nat.zero_le _, ⟨by simp, by simp⟩, [], writes_nil, by simp⟩
  obtain ⟨hsound, hend⟩ := compressLoop_spec data.length hstart (Nat.le_add_left _ _)
  have hwrites := hsound.flush
  rwa [hend, take_length] at hwrites

/-! ### The length of the output -/

theorem length_flushParts (fuel : ℕ) : ∀ {literal out : List UInt8}, literal.length ≤ fuel →
    (flushParts fuel literal out).length = out.length + literal.length + (literal.length + 127) / 128 := by
  induction fuel with
  | zero =>
    intro literal out hlen
    have hzero : literal.length = 0 := Nat.le_zero.mp hlen
    simp [flushParts, hzero]
  | succ fuel ih =>
    intro literal out hlen
    rw [flushParts]
    split_ifs with hempty
    · simp [hempty]
    · have hpos : 0 < literal.length := length_pos_iff.mpr hempty
      have hpart : (literal.take 128).length = min 128 literal.length := length_take
      dsimp only
      rw [ih (by rw [length_drop]; omega), length_append, length_cons, length_drop]
      omega

/-- What is written so far costs at most one byte for every 128 beside what it stands for. -/
structure Compressor.Tight (c : Compressor) : Prop where
  literal_le : c.literal.length ≤ c.position
  out_le : 128 * c.out.length ≤ 129 * (c.position - c.literal.length)

theorem Compressor.Tight.emit (h : c.Tight) (hchained : c.Chained c.position) {op : Op UInt8}
    (hop : 128 * (opBytes op).length + 127 ≤ 129 * op.count) : (c.emit data op).Tight := by
  obtain ⟨-, hout, hliteral⟩ := Compressor.insertAll_spec data
    (c := { c.flush with out := c.flush.out ++ opBytes op }) hchained op.count
  have hflush := @length_flushParts c.literal.length c.literal c.out (Nat.le_refl c.literal.length)
  have hle := h.literal_le
  have hlen := h.out_le
  constructor
  · simp only [Compressor.emit]
    rw [hliteral]
    exact Nat.zero_le _
  · -- the literal before the operation costs one byte for its last part, which the operation gains
    simp only [Compressor.emit]
    rw [hout, hliteral, length_append]
    simp only [Compressor.flush, length_nil] at hflush ⊢
    omega

theorem compressStep_tight (hsound : c.Sound data) (h : c.Tight) : (compressStep data c).Tight := by
  have hle := h.literal_le
  have hlen := h.out_le
  unfold compressStep
  dsimp only
  split_ifs with hrun hcopy
  · apply h.emit hsound.chained
    simp only [opBytes, Op.count, length_cons, length_nil]
    omega
  · apply h.emit hsound.chained
    simp only [opBytes, Op.count, length_cons, length_nil]
    omega
  · have hout := (Compressor.insert_eq data c c.position).1
    constructor
    · simp only [length_append, length_singleton]
      omega
    · simp only [hout, length_append, length_singleton]
      omega

theorem compressLoop_tight (fuel : ℕ) :
    ∀ {c : Compressor}, c.Sound data → c.Tight → (compressLoop data fuel c).Tight := by
  induction fuel with
  | zero => exact fun _ h => h
  | succ fuel ih =>
    intro c hsound h
    rw [compressLoop]
    split_ifs with hlt
    · exact ih (compressStep_sound hsound hlt) (compressStep_tight hsound h)
    · exact h

/-- **The output is no longer than literals alone**: each operation saves what the literal before it
costs. -/
theorem length_compress_le (data : List UInt8) :
    (compress data).length ≤ data.length + (data.length + 127) / 128 := by
  have hstart : ({} : Compressor).Sound data :=
    ⟨Nat.zero_le _, ⟨by simp, by simp⟩, [], writes_nil, by simp⟩
  have hend := (compressLoop_spec data.length hstart (Nat.le_add_left _ _)).2
  have htight := compressLoop_tight data.length hstart ⟨Nat.le_refl 0, Nat.le_refl 0⟩
  have hle := htight.literal_le
  have hlen := htight.out_le
  rw [compress, Compressor.flush, length_flushParts _ (Nat.le_refl _)]
  omega

end Tbi
