import TeleBezel.Image.Decoder

/-!
# The decoder refines the operations

Fed the bytes of an operation of the format, the decoder of the watch appends to its buffer what
the operation appends to the text; fed the body of a list of operations, it holds the text that
the list decodes to.
-/

open List

namespace Watch

open Lz Tbi

/-- The decoder of an image of `size` bytes holds the text `out`. -/
structure Decoded (header : TbImageHeader) (size : ℕ) (out : List UInt8) (d : TbImageDecoder) :
    Prop where
  header : d.header = header
  ready : d.headerReady = true
  size_eq : d.size = size
  filled : d.filled = out.length
  pixels : ∃ pixels, d.pixels = some pixels ∧ pixels.length = size ∧ pixels.take out.length = out

variable {header : TbImageHeader} {size : ℕ} {out : List UInt8} {d : TbImageDecoder}

theorem Decoded.congr (h : Decoded header size out d) {d' : TbImageDecoder}
    (hview : (d'.header, d'.headerReady, d'.size, d'.filled, d'.pixels) =
      (d.header, d.headerReady, d.size, d.filled, d.pixels)) : Decoded header size out d' := by
  simp only [Prod.mk.injEq] at hview
  obtain ⟨hheader, hready, hsize, hfilled, hpixels⟩ := hview
  exact ⟨hheader.trans h.header, hready.trans h.ready, hsize.trans h.size_eq,
    hfilled.trans h.filled, hpixels ▸ h.pixels⟩

theorem Decoded.emit (h : Decoded header size out d) (hroom : out.length < size) (value : UInt8) :
    ∃ d', Watch.emit d value = (true, d') ∧ Decoded header size (out ++ [value]) d' ∧
      d'.op = d.op ∧ d'.remaining = d.remaining ∧ d'.distance = d.distance := by
  obtain ⟨pixels, hpixels, hlen, htake⟩ := h.pixels
  have hfull : ¬ d.size ≤ d.filled := by rw [h.size_eq, h.filled]; omega
  refine ⟨{ d with pixels := d.pixels.map (·.set d.filled value), filled := d.filled + 1 },
    by rw [Watch.emit, if_neg hfull], ⟨h.header, h.ready, h.size_eq, ?_, ?_⟩, rfl, rfl, rfl⟩
  · simp [h.filled]
  · refine ⟨pixels.set out.length value, by simp [hpixels, h.filled], by simp [hlen], ?_⟩
    have hlt : out.length < (pixels.set out.length value).length := by simp [hlen, hroom]
    rw [length_append, length_singleton, take_add_one, take_set_of_le (Nat.le_refl _),
      htake, List.getElem?_eq_getElem hlt]
    simp

/-- The text after `n` rounds that each append a byte computed from it. -/
def grow (f : List UInt8 → UInt8) : ℕ → List UInt8 → List UInt8
  | 0, out => out
  | n + 1, out => grow f n (out ++ [f out])

theorem Decoded.emitLoop (source : TbImageDecoder → UInt8) (f : List UInt8 → UInt8) {k : ℕ}
    (hsource : ∀ {out d}, k ≤ out.length → Decoded header size out d → source d = f out) (n : ℕ) :
    ∀ {out d}, k ≤ out.length → Decoded header size out d → out.length + n ≤ size →
      ∃ d', Watch.emitLoop source n d = (true, d') ∧ Decoded header size (grow f n out) d' := by
  induction n with
  | zero => intro out d _ h _; exact ⟨d, rfl, h⟩
  | succ n ih =>
    intro out d hk h hroom
    obtain ⟨d₁, hemit, h₁, -, -, -⟩ := h.emit (by omega) (f out)
    have h₂ : Decoded header size (out ++ [f out]) { d₁ with remaining := n } :=
      h₁.congr rfl
    obtain ⟨d', hloop, h'⟩ := ih (by rw [length_append]; omega) h₂ (by simp; omega)
    refine ⟨d', ?_, h'⟩
    rw [Watch.emitLoop, hsource hk h, hemit]
    exact hloop

theorem grow_const (value : UInt8) (n : ℕ) (out : List UInt8) :
    grow (fun _ => value) n out = out ++ List.replicate n value := by
  induction n generalizing out with
  | zero => simp [grow]
  | succ n ih => rw [grow, ih, append_assoc, replicate_succ]; rfl

theorem grow_copy {distance : ℕ} (hpos : 0 < distance) (n : ℕ) :
    ∀ {out : List UInt8}, distance ≤ out.length →
      grow (fun out => out.getD (out.length - distance) 0) n out = copyBack distance n out := by
  induction n with
  | zero => intro out _; rfl
  | succ n ih =>
    intro out hle
    obtain ⟨symbol, hsymbol, hcopy⟩ := copyBack_succ hpos hle n
    rw [grow, hcopy, List.getD, hsymbol, Option.getD_some, ih (by simp; omega)]

theorem Decoded.behind {distance : ℕ} (hpos : 0 < distance) (hle : distance ≤ out.length)
    (h : Decoded header size out d) :
    Watch.behind distance d = out.getD (out.length - distance) 0 := by
  obtain ⟨pixels, hpixels, hlen, htake⟩ := h.pixels
  have hget := congrArg (fun l => l[out.length - distance]?) htake
  simp only [List.getElem?_take_of_lt (show out.length - distance < out.length by omega)] at hget
  rw [Watch.behind, hpixels, h.filled, Option.getD_some, List.getD, List.getD, hget]

theorem bodyByte_of_room (h : Decoded header size out d) (hroom : out.length < size) (byte : UInt8) :
    bodyByte d byte = taken (step d byte) := by
  have hfull : ¬ (d.size ≤ d.filled ∧ d.op = .none) := by
    rintro ⟨hle, -⟩
    rw [h.size_eq, h.filled] at hle
    omega
  rw [bodyByte, if_neg hfull]

theorem foldlM_literal (symbols : List UInt8) (hne : symbols ≠ []) :
    ∀ {out d}, Decoded header size out d → d.op = .literal → d.remaining = symbols.length →
      out.length + symbols.length ≤ size →
      ∃ d', symbols.foldlM bodyByte d = some d' ∧ Decoded header size (out ++ symbols) d' ∧
        d'.op = .none := by
  induction symbols with
  | nil => exact absurd rfl hne
  | cons symbol symbols ih =>
    intro out d h hop hremaining hroom
    rw [length_cons] at hremaining hroom
    obtain ⟨d₁, hemit, h₁, hop₁, hremaining₁, -⟩ := h.emit (by omega) symbol
    rw [foldlM_cons, bodyByte_of_room h (by omega), step, hop]
    simp only [hemit, hremaining₁, hremaining, Nat.add_sub_cancel]
    rcases eq_or_ne symbols [] with rfl | hne'
    · exact ⟨_, rfl, h₁.congr rfl, rfl⟩
    · have hlen : symbols.length ≠ 0 := fun h0 => hne' (length_eq_zero_iff.mp h0)
      rw [if_neg hlen]
      have h₂ : Decoded header size (out ++ [symbol]) { d₁ with remaining := symbols.length } :=
        h₁.congr rfl
      obtain ⟨d', hfold, h', hop'⟩ := ih hne' h₂ (hop₁.trans hop) rfl (by simp; omega)
      exact ⟨d', hfold, by simpa using h', hop'⟩

theorem foldlM_opBytes {op : Op UInt8} (h : Decoded header size out d) (hop : d.op = .none)
    (hvalid : op.Valid out) (hformat : InFormat op) (hroom : out.length + op.count ≤ size) :
    ∃ d', (opBytes op).foldlM bodyByte d = some d' ∧ Decoded header size (op.apply out) d' ∧
      d'.op = .none := by
  have hroom₁ : out.length < size := by
    have := Op.count_pos hvalid
    omega
  cases op with
  | literal symbols =>
    obtain ⟨hlt, hcount⟩ := literal_code hformat.1 hformat.2
    have h₁ : Decoded header size out
        { d with op := .literal, remaining := symbols.length } := h.congr rfl
    obtain ⟨d', hfold, h', hop'⟩ := foldlM_literal symbols hvalid h₁ rfl rfl hroom
    refine ⟨d', ?_, h', hop'⟩
    rw [opBytes, foldlM_cons, bodyByte_of_room h hroom₁, step, hop]
    simp only [if_pos hlt, hcount]
    exact hfold
  | run count symbol =>
    obtain ⟨hge, hlt, hcount⟩ := run_code hformat.1 hformat.2
    have h₁ : Decoded header size out { d with op := .repeat, remaining := count } :=
      h.congr rfl
    obtain ⟨d', hloop, h'⟩ := Decoded.emitLoop (k := 0) (fun _ => symbol) (fun _ => symbol)
      (fun _ _ => rfl) count (Nat.zero_le _) h₁ hroom
    rw [grow_const] at h'
    refine ⟨{ d' with op := .none }, ?_, h'.congr rfl, rfl⟩
    rw [opBytes, foldlM_cons, bodyByte_of_room h hroom₁, step, hop]
    simp only [if_neg hge, if_pos hlt, hcount, taken, Option.bind_eq_bind, Option.bind_some, foldlM_cons]
    rw [bodyByte_of_room h₁ hroom₁, step]
    simp only [hloop]
    rfl
  | copy count distance =>
    obtain ⟨hge, hge', hcount⟩ := copy_code hformat.1 hformat.2.1
    obtain ⟨-, hpos, hle⟩ := hvalid
    have hdistance : (UInt8.ofNat distance).toNat ||| ((UInt8.ofNat (distance >>> 8)).toNat <<< 8) =
        distance := Word.little16_bytes16 hformat.2.2
    have h₁ : Decoded header size out { d with op := .distanceLow, remaining := count } :=
      h.congr rfl
    have h₂ : Decoded header size out
        { d with op := .distanceHigh, remaining := count, distance := (UInt8.ofNat distance).toNat } :=
      h.congr rfl
    have h₃ : Decoded header size out
        { d with op := .distanceHigh, remaining := count, distance := distance } :=
      h.congr rfl
    obtain ⟨d', hloop, h'⟩ := Decoded.emitLoop (k := distance) (Watch.behind distance)
      (fun out => out.getD (out.length - distance) 0) (fun hk hd => hd.behind hpos hk) count hle h₃
      hroom
    rw [grow_copy hpos count hle] at h'
    refine ⟨{ d' with op := .none }, ?_, h'.congr rfl, rfl⟩
    have hbounds : ¬ (distance = 0 ∨ d.filled < distance) := by
      rw [h.filled]
      omega
    rw [opBytes, foldlM_cons, bodyByte_of_room h hroom₁, step, hop]
    simp only [if_neg hge, if_neg hge', hcount, taken, Option.bind_eq_bind, Option.bind_some,
      foldlM_cons]
    rw [bodyByte_of_room h₁ hroom₁, step]
    simp only [taken, Option.bind_some]
    rw [bodyByte_of_room h₂ hroom₁, step]
    simp only [hdistance, if_neg hbounds, hloop]
    rfl

theorem foldlM_bodyBytes (ops : List (Op UInt8)) :
    ∀ {out d}, Decoded header size out d → d.op = .none → ValidFrom out ops →
      (∀ op ∈ ops, InFormat op) → (expand out ops).length ≤ size →
      ∃ d', (bodyBytes ops).foldlM bodyByte d = some d' ∧
        Decoded header size (expand out ops) d' ∧ d'.op = .none := by
  induction ops with
  | nil => intro out d h hop _ _ _; exact ⟨d, rfl, h, hop⟩
  | cons op ops ih =>
    intro out d h hop hvalid hformat hroom
    have hle := length_le_expand hvalid.2
    rw [Op.length_apply hvalid.1] at hle
    obtain ⟨d₁, hfold₁, h₁, hop₁⟩ := foldlM_opBytes h hop hvalid.1
      (hformat op (mem_cons_self ..)) (hle.trans hroom)
    obtain ⟨d', hfold, h', hop'⟩ := ih h₁ hop₁ hvalid.2
      (fun op' hop' => hformat op' (mem_cons_of_mem _ hop')) hroom
    refine ⟨d', ?_, h', hop'⟩
    rw [bodyBytes_cons, foldlM_append, hfold₁]
    exact hfold

end Watch
