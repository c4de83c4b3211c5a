import TeleBezel.Image.Format
import TeleBezel.Image.Geometry

/-!
# The decoder of the watch

`app/src/c/image.c` decodes a TBI stream as its chunks arrive, straight into the pixel buffer. A
call of `tb_image_feed` either collects header bytes, up to the end of the palette, or takes body
bytes one by one; a body that fills the buffer ends with the comparison of the checksum.
-/

open List

namespace Watch

open Word

inductive TbImageStatus
  | more
  | headerReady
  | done
  | bad
deriving DecidableEq

inductive TbImageOp
  | none
  | literal
  | «repeat»
  | distanceLow
  | distanceHigh
deriving DecidableEq

/-- `TbImageDecoder`. The bytes `head[0 .. head_length)` are the list `head`, and `pixels` is
the buffer behind the pointer, if there is one. -/
structure TbImageDecoder where
  header : TbImageHeader := {}
  head : List UInt8 := []
  headerReady : Bool := false
  pixels : Option (List UInt8) := none
  size : ℕ := 0
  filled : ℕ := 0
  op : TbImageOp := .none
  remaining : ℕ := 0
  distance : ℕ := 0
deriving DecidableEq

def tbImageReset : TbImageDecoder := {}

/-- `tb_image_pixel`: the pixel `index` of the row that starts at the pointer `row`. -/
def tbImagePixel (header : TbImageHeader) (row : List UInt8) (index : ℕ) : UInt8 :=
  let bit := uint16 (index * header.bits : ℕ)
  let shift := byteOf (8 - header.bits - (bit &&& 7 : ℕ))
  UInt8.ofNat (((row.getD (bit >>> 3) 0).toNat >>> shift.toNat) &&& ((1 <<< header.bits) - 1))

section Header

/-- `le16` at an offset of the header bytes. -/
def le16 (head : List UInt8) (i : ℕ) : ℕ := little16 (head.getD i 0) (head.getD (i + 1) 0)

/-- `le32` at an offset of the header bytes. -/
def le32 (head : List UInt8) (i : ℕ) : ℕ := le16 head i ||| (le16 head (i + 2) <<< 16)

def headerValid (head : List UInt8) : Bool :=
  let bits := (head.getD 3 0).toNat
  head.getD 0 0 == 0x54 && head.getD 1 0 == 0x42 && head.getD 2 0 == 1 &&
    (bits == 1 || bits == 2 || bits == 4) && head.getD 4 0 ≤ 1 &&
    1 ≤ (head.getD 5 0).toNat && (head.getD 5 0).toNat ≤ 1 <<< bits &&
    0 < le16 head 6 && 0 < le16 head 8 && le16 head 6 ≤ le16 head 10 && le16 head 8 ≤ le16 head 12

/-- The fields that `parse_header` reads from the header bytes. -/
def readHeader (head : List UInt8) : TbImageHeader where
  bits := (head.getD 3 0).toNat
  shape := (head.getD 4 0).toNat
  colors := (head.getD 5 0).toNat
  width := le16 head 6
  height := le16 head 8
  canvasWidth := le16 head 10
  canvasHeight := le16 head 12
  tag := le32 head 14
  crc := le32 head 18
  palette := (head.drop Tbi.headerSize).take (head.getD 5 0).toNat

def parseHeader (d : TbImageDecoder) : Bool × TbImageDecoder :=
  let d := { d with header := readHeader d.head }
  let size := tbImageSize d.header
  if size = 0 ∨ 65535 < size then (false, d) else (true, { d with size := size })

end Header

section Body

variable (d : TbImageDecoder)

def emit (value : UInt8) : Bool × TbImageDecoder :=
  if d.size ≤ d.filled then (false, d)
  else (true, { d with pixels := d.pixels.map (·.set d.filled value), filled := d.filled + 1 })

/-- The loop `while (decoder->remaining)` of a repeat and of a copy: `source` is the byte that
the next round emits. -/
def emitLoop (source : TbImageDecoder → UInt8) : ℕ → TbImageDecoder → Bool × TbImageDecoder
  | 0, d => (true, d)
  | remaining + 1, d =>
    match emit d (source d) with
    | (true, d) => emitLoop source remaining { d with remaining := remaining }
    | (false, d) => (false, d)

/-- The byte `distance` before the end of what is filled. -/
def behind (distance : ℕ) (d : TbImageDecoder) : UInt8 :=
  (d.pixels.getD []).getD (d.filled - distance) 0

def step (byte : UInt8) : Bool × TbImageDecoder :=
  match d.op with
  | .none =>
    if byte < 0x80 then (true, { d with op := .literal, remaining := byte.toNat + 1 })
    else if byte < 0xC0 then
      (true, { d with op := .repeat, remaining := (byte &&& 0x3F).toNat + 3 })
    else (true, { d with op := .distanceLow, remaining := (byte &&& 0x3F).toNat + 3 })
  | .literal =>
    match emit d byte with
    | (true, d) =>
      let d := { d with remaining := d.remaining - 1 }
      (true, if d.remaining = 0 then { d with op := .none } else d)
    | (false, d) => (false, d)
  | .repeat =>
    match emitLoop (fun _ => byte) d.remaining d with
    | (true, d) => (true, { d with op := .none })
    | (false, d) => (false, d)
  | .distanceLow => (true, { d with distance := byte.toNat, op := .distanceHigh })
  | .distanceHigh =>
    let d := { d with distance := d.distance ||| (byte.toNat <<< 8) }
    if d.distance = 0 ∨ d.filled < d.distance then (false, d)
    else
      match emitLoop (behind d.distance) d.remaining d with
      | (true, d) => (true, { d with op := .none })
      | (false, d) => (false, d)

end Body

section Feed

/-- What a call of `tb_image_feed` returns: the status, the decoder and the bytes used. -/
structure TbImageFed where
  status : TbImageStatus
  decoder : TbImageDecoder
  used : ℕ

/-- The loop of `tb_image_feed` before the header is complete; `offset` bytes are taken. -/
def feedHead : TbImageDecoder → List UInt8 → ℕ → TbImageFed
  | d, [], offset => ⟨.more, d, offset⟩
  | d, byte :: rest, offset =>
    let d := { d with head := d.head ++ [byte] }
    if d.head.length = Tbi.headerSize ∧ headerValid d.head = false then ⟨.bad, d, 0⟩
    else if Tbi.headerSize ≤ d.head.length ∧
        d.head.length = Tbi.headerSize + (d.head.getD 5 0).toNat then
      match parseHeader d with
      | (true, d) => ⟨.headerReady, { d with headerReady := true }, offset + 1⟩
      | (false, d) => ⟨.bad, d, 0⟩
    else feedHead d rest (offset + 1)

/-- The loop of `tb_image_feed` over body bytes. -/
def feedBody : TbImageDecoder → List UInt8 → Bool × TbImageDecoder
  | d, [] => (true, d)
  | d, byte :: rest =>
    if d.size ≤ d.filled ∧ d.op = .none then (false, d)
    else
      match step d byte with
      | (true, d) => feedBody d rest
      | (false, d) => (false, d)

variable (d : TbImageDecoder)

def bodyStatus : TbImageStatus :=
  if d.filled < d.size ∨ d.op ≠ .none then .more
  else if (tbImageCrc 0 ((d.pixels.getD []).take d.size)).toNat = d.header.crc then .done
  else .bad

/-- `tb_image_feed`. Its length is a 16-bit word, which no step depends on. -/
def tbImageFeed (data : List UInt8) : TbImageFed :=
  if d.headerReady = false then feedHead d data 0
  else if d.pixels = none then ⟨.bad, d, 0⟩
  else
    match feedBody d data with
    | (true, d) => ⟨bodyStatus d, d, data.length⟩
    | (false, d) => ⟨.bad, d, 0⟩

end Feed

section Frame

structure SameFrame (d d' : TbImageDecoder) : Prop where
  header : d'.header = d.header
  headerReady : d'.headerReady = d.headerReady
  size : d'.size = d.size
  pixels : d'.pixels.map List.length = d.pixels.map List.length

variable (d : TbImageDecoder)

theorem SameFrame.refl : SameFrame d d := ⟨rfl, rfl, rfl, rfl⟩

theorem SameFrame.trans {d₁ d₂ d₃ : TbImageDecoder} (h : SameFrame d₁ d₂) (h' : SameFrame d₂ d₃) :
    SameFrame d₁ d₃ :=
  ⟨h'.header.trans h.header, h'.headerReady.trans h.headerReady, h'.size.trans h.size,
    h'.pixels.trans h.pixels⟩

theorem sameFrame_emit (value : UInt8) : SameFrame d (emit d value).2 := by
  unfold emit
  split_ifs
  · exact SameFrame.refl d
  · exact ⟨rfl, rfl, rfl, by simp [Function.comp_def]⟩

theorem sameFrame_emitLoop (source : TbImageDecoder → UInt8) (n : ℕ) (d : TbImageDecoder) :
    SameFrame d (emitLoop source n d).2 := by
  induction n generalizing d with
  | zero => exact SameFrame.refl d
  | succ n ih =>
    have hemit := sameFrame_emit d (source d)
    rw [emitLoop]
    generalize emit d (source d) = r at hemit ⊢
    rcases r with ⟨_ | _, d₁⟩
    · exact hemit
    · have hset : SameFrame d₁ { d₁ with remaining := n } := ⟨rfl, rfl, rfl, rfl⟩
      exact (SameFrame.trans hemit hset).trans (ih _)

theorem sameFrame_step (byte : UInt8) : SameFrame d (step d byte).2 := by
  unfold step
  split
  · split_ifs <;> exact ⟨rfl, rfl, rfl, rfl⟩
  · have hemit := sameFrame_emit d byte
    generalize emit d byte = r at hemit ⊢
    rcases r with ⟨_ | _, d₁⟩
    · exact hemit
    · simp only
      split_ifs <;> exact ⟨hemit.header, hemit.headerReady, hemit.size, hemit.pixels⟩
  · have hloop := sameFrame_emitLoop (fun _ => byte) d.remaining d
    generalize emitLoop (fun _ => byte) d.remaining d = r at hloop ⊢
    rcases r with ⟨_ | _, d₁⟩
    · exact hloop
    · exact ⟨hloop.header, hloop.headerReady, hloop.size, hloop.pixels⟩
  · exact ⟨rfl, rfl, rfl, rfl⟩
  · simp only
    set d₀ : TbImageDecoder := { d with distance := d.distance ||| (byte.toNat <<< 8) } with hd₀
    have h₀ : SameFrame d d₀ := ⟨rfl, rfl, rfl, rfl⟩
    split_ifs
    · exact h₀
    · have hloop := h₀.trans (sameFrame_emitLoop (behind d₀.distance) d₀.remaining d₀)
      generalize emitLoop (behind d₀.distance) d₀.remaining d₀ = r at hloop ⊢
      rcases r with ⟨_ | _, d₁⟩
      · exact hloop
      · exact ⟨hloop.header, hloop.headerReady, hloop.size, hloop.pixels⟩

end Frame

section Bytes

def taken : Bool × TbImageDecoder → Option TbImageDecoder
  | (true, d) => some d
  | (false, _) => none

def bodyByte (d : TbImageDecoder) (byte : UInt8) : Option TbImageDecoder :=
  if d.size ≤ d.filled ∧ d.op = .none then none else taken (step d byte)

theorem sameFrame_bodyByte {d d' : TbImageDecoder} {byte : UInt8} (h : bodyByte d byte = some d') :
    SameFrame d d' := by
  have hstep := sameFrame_step d byte
  unfold bodyByte at h
  split_ifs at h
  generalize step d byte = r at hstep h
  rcases r with ⟨_ | _, d₁⟩
  · cases h
  · obtain rfl := Option.some.inj h
    exact hstep

variable {data : List UInt8}

theorem sameFrame_foldlM {d d' : TbImageDecoder}
    (h : data.foldlM bodyByte d = some d') : SameFrame d d' := by
  induction data generalizing d with
  | nil =>
    obtain rfl := Option.some.inj h
    exact SameFrame.refl d
  | cons byte rest ih =>
    rw [foldlM_cons] at h
    obtain ⟨d₁, hbyte, hrest⟩ := Option.bind_eq_some_iff.mp h
    exact (sameFrame_bodyByte hbyte).trans (ih hrest)

theorem feedBody_eq_foldlM (d d' : TbImageDecoder) (data : List UInt8) :
    feedBody d data = (true, d') ↔ data.foldlM bodyByte d = some d' := by
  induction data generalizing d with
  | nil => simp [feedBody]
  | cons byte rest ih =>
    rw [feedBody, foldlM_cons, bodyByte]
    split_ifs with hfull
    · simp
    · rcases hstep : step d byte with ⟨_ | _, d₁⟩
      · simp [taken]
      · simpa [taken] using ih d₁

/-- **A chunk of the body is taken byte by byte**, and the status tells what is left. -/
theorem tbImageFeed_body {d d' : TbImageDecoder} (hready : d.headerReady = true)
    (hpixels : d.pixels ≠ none) (h : data.foldlM bodyByte d = some d') :
    tbImageFeed d data = ⟨bodyStatus d', d', data.length⟩ := by
  have hbody := (feedBody_eq_foldlM d d' data).mpr h
  simp [tbImageFeed, hready, hpixels, hbody]

theorem bodyStatus_of_bodyByte {d d' : TbImageDecoder} {byte : UInt8}
    (h : bodyByte d byte = some d') : bodyStatus d = .more := by
  unfold bodyByte at h
  split_ifs at h with hfull
  rw [bodyStatus, if_pos (by simpa [imp_iff_not_or] using hfull)]

end Bytes

section Head

variable {p q : List UInt8}

theorem getD_of_leading (h : p <+: q) {i : ℕ} (hi : i < p.length) :
    p.getD i 0 = q.getD i 0 := by
  obtain ⟨r, rfl⟩ := h
  rw [getD_append _ _ _ _ hi]

theorem headerValid_of_leading (h : p <+: q) (hlen : Tbi.headerSize ≤ p.length) :
    headerValid p = headerValid q := by
  have hget : ∀ i < 22, p.getD i 0 = q.getD i 0 :=
    fun i hi => getD_of_leading h (hi.trans_le hlen)
  simp (disch := decide) only [headerValid, le16, hget]
  rfl

structure CompleteHead (head : List UInt8) : Prop where
  length : head.length = Tbi.headerSize + (head.getD 5 0).toNat
  valid : headerValid head = true
  size_pos : 0 < tbImageSize (readHeader head)
  size_le : tbImageSize (readHeader head) ≤ 65535

def started (head : List UInt8) (pixels : Option (List UInt8)) : TbImageDecoder :=
  { header := readHeader head, head := head, headerReady := true, pixels := pixels
    size := tbImageSize (readHeader head) }

variable {head : List UInt8} (hhead : CompleteHead head)
include hhead

theorem CompleteHead.not_invalid (h : p <+: head) :
    ¬ (p.length = Tbi.headerSize ∧ headerValid p = false) := by
  rintro ⟨hlen, hvalid⟩
  rw [headerValid_of_leading h hlen.ge, hhead.valid] at hvalid
  exact absurd hvalid (by decide)

theorem CompleteHead.not_complete (h : p <+: head) (hlt : p.length < head.length) :
    ¬ (Tbi.headerSize ≤ p.length ∧ p.length = Tbi.headerSize + (p.getD 5 0).toNat) := by
  rintro ⟨hle, hlen⟩
  have h5 : p.getD 5 0 = head.getD 5 0 :=
    getD_of_leading h (lt_of_lt_of_le (by decide) hle)
  rw [h5, ← hhead.length] at hlen
  omega

theorem feedHead_more (h : p ++ q <+: head) (hlt : (p ++ q).length < head.length) (offset : ℕ) :
    feedHead { head := p } q offset = ⟨.more, { head := p ++ q }, offset + q.length⟩ := by
  induction q generalizing p offset with
  | nil => simp [feedHead]
  | cons byte q ih =>
    rw [append_cons] at h hlt ⊢
    have hp : p ++ [byte] <+: head := (prefix_append _ _).trans h
    have hlen : (p ++ [byte]).length < head.length := by
      rw [length_append] at hlt
      omega
    rw [feedHead]
    simp only [if_neg (hhead.not_invalid hp), if_neg (hhead.not_complete hp hlen)]
    rw [ih h hlt, length_cons]
    congr 1
    omega

theorem feedHead_ready (h : p ++ q = head) (hq : q ≠ []) (rest : List UInt8) (offset : ℕ) :
    feedHead { head := p } (q ++ rest) offset =
      ⟨.headerReady, started head none, offset + q.length⟩ := by
  induction q generalizing p offset with
  | nil => exact absurd rfl hq
  | cons byte q ih =>
    rw [append_cons] at h
    have hp : p ++ [byte] <+: head := ⟨q, h⟩
    rw [cons_append, feedHead]
    simp only [if_neg (hhead.not_invalid hp)]
    rcases eq_or_ne q [] with rfl | hne
    · rw [append_nil] at h
      have hsize : ¬ (tbImageSize (readHeader head) = 0 ∨ 65535 < tbImageSize (readHeader head)) := by
        have := hhead.size_pos
        have := hhead.size_le
        omega
      rw [h, if_pos ⟨by rw [hhead.length]; omega, hhead.length⟩]
      simp [parseHeader, hsize, started]
    · have hlen : (p ++ [byte]).length < head.length := by
        have := length_pos_iff.mpr hne
        have := congrArg List.length h
        rw [length_append] at this
        omega
      rw [if_neg (hhead.not_complete hp hlen), ih h hne, length_cons]
      congr 1
      omega

end Head

end Watch
