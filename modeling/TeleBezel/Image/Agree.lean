import TeleBezel.Image.ApiSize
import TeleBezel.Image.Cursor
import TeleBezel.Image.Decode

/-!
# The two decoders agree

The decoder of the renderer sees a whole stream, the one of the watch takes bytes as they come and
writes to its buffer before it knows whether an operation fits. Both accept the bodies that a list of
valid operations writes, and no others; so they agree on every stream, wherever it is cut.
-/

open Word Lz List

namespace Watch

open Tbi

section Body

variable {header : TbImageHeader} {size : ℕ} {out : List UInt8}

theorem room_of_bodyByte {d d' : TbImageDecoder} {byte : UInt8}
    (h : Decoded header size out d) (hop : d.op = .none) (hbyte : bodyByte d byte = some d') :
    out.length < size := by
  by_contra hfull
  rw [bodyByte, if_pos ⟨by rw [h.size_eq, h.filled]; omega, hop⟩] at hbyte
  cases hbyte

theorem literal_of_foldlM (data : List UInt8) :
    ∀ {out : List UInt8} {d d' : TbImageDecoder} {n : ℕ}, Decoded header size out d →
      d.op = .literal → d.remaining = n + 1 → data.foldlM bodyByte d = some d' → d'.op = .none →
      n + 1 ≤ data.length ∧ out.length + (n + 1) ≤ size := by
  induction data with
  | nil =>
    intro out d d' n h hop hremaining hfold hend
    obtain rfl := Option.some.inj hfold
    exact absurd (hop.symm.trans hend) (by decide)
  | cons byte data ih =>
    intro out d d' n h hop hremaining hfold hend
    rw [foldlM_cons] at hfold
    obtain ⟨d₁, hbyte, hrest⟩ := Option.bind_eq_some_iff.mp hfold
    have hroom : out.length < size := by
      by_contra hfull
      have hemit : emit d byte = (false, d) := by
        rw [emit, if_pos (by rw [h.size_eq, h.filled]; omega)]
      rw [bodyByte, if_neg (by rw [hop]; simp), step, hop] at hbyte
      simp only [hemit, taken] at hbyte
      cases hbyte
    obtain ⟨d₂, hemit, h₂, hop₂, hremaining₂, -⟩ := h.emit hroom byte
    rw [bodyByte_of_room h hroom, step, hop] at hbyte
    simp only [hemit, hremaining₂, hremaining, Nat.add_sub_cancel, taken] at hbyte
    rw [length_cons]
    cases n with
    | zero => exact ⟨by omega, by omega⟩
    | succ n =>
      rw [if_neg (Nat.succ_ne_zero n)] at hbyte
      obtain rfl := Option.some.inj hbyte
      have h₃ : Decoded header size (out ++ [byte]) { d₂ with remaining := n + 1 } :=
        h₂.congr rfl
      obtain ⟨hlen, hfits⟩ := ih h₃ (hop₂.trans hop) rfl hrest hend
      rw [length_append, length_singleton] at hfits
      exact ⟨by omega, by omega⟩

theorem room_of_emitLoop {d d' : TbImageDecoder} {n : ℕ}
    {source : TbImageDecoder → UInt8} (h : Decoded header size out d) (hle : out.length ≤ size)
    (hremaining : d.remaining = n) (hloop : emitLoop source n d = (true, d')) :
    out.length + n ≤ size := by
  obtain ⟨hfilled, -, hsize, hroom⟩ := emitLoop_eq_true n hloop hremaining
    (by rw [h.size_eq, h.filled]; exact hle)
  rw [hfilled, hsize, h.size_eq, h.filled] at hroom
  exact hroom

theorem exists_op_of_foldlM {byte : UInt8} {body : List UInt8} {d d' : TbImageDecoder}
    (h : Decoded header size out d) (hop : d.op = .none)
    (hfold : (byte :: body).foldlM bodyByte d = some d') (hend : d'.op = .none) :
    ∃ op rest, byte :: body = opBytes op ++ rest ∧ InFormat op ∧ op.Valid out ∧
      out.length + op.count ≤ size := by
  rw [foldlM_cons] at hfold
  obtain ⟨d₁, hbyte, hrest⟩ := Option.bind_eq_some_iff.mp hfold
  have hroom := room_of_bodyByte h hop hbyte
  rw [bodyByte_of_room h hroom, step, hop] at hbyte
  by_cases hliteral : byte < 0x80
  · rw [if_pos hliteral] at hbyte
    obtain rfl := Option.some.inj hbyte
    have h₁ : Decoded header size out
        { d with op := .literal, remaining := byte.toNat + 1 } := h.congr rfl
    obtain ⟨hlen, hfits⟩ := literal_of_foldlM body h₁ rfl rfl hrest hend
    obtain ⟨hbytes, hformat⟩ := literal_bytes hliteral hlen
    refine ⟨_, _, hbytes, hformat, ?_, ?_⟩
    · exact ne_nil_of_length_pos (by rw [length_take]; omega)
    · rw [Op.count, length_take]
      omega
  rw [if_neg hliteral] at hbyte
  by_cases hrun : byte < 0xC0
  · rw [if_pos hrun] at hbyte
    obtain rfl := Option.some.inj hbyte
    have h₁ : Decoded header size out
        { d with op := .repeat, remaining := (byte &&& 0x3F).toNat + 3 } :=
      h.congr rfl
    cases body with
    | nil =>
      obtain rfl := Option.some.inj hrest
      cases hend
    | cons value body =>
      rw [foldlM_cons] at hrest
      obtain ⟨d₂, hvalue, -⟩ := Option.bind_eq_some_iff.mp hrest
      rw [bodyByte_of_room h₁ hroom, step] at hvalue
      generalize hloop : emitLoop _ _ _ = r at hvalue
      rcases r with ⟨_ | _, d₃⟩
      · cases hvalue
      obtain ⟨hbytes, hformat⟩ := run_bytes hliteral hrun value body
      exact ⟨_, _, hbytes, hformat, Nat.succ_pos _, room_of_emitLoop h₁ hroom.le rfl hloop⟩
  · rw [if_neg hrun] at hbyte
    obtain rfl := Option.some.inj hbyte
    have h₁ : Decoded header size out
        { d with op := .distanceLow, remaining := (byte &&& 0x3F).toNat + 3 } :=
      h.congr rfl
    cases body with
    | nil =>
      obtain rfl := Option.some.inj hrest
      cases hend
    | cons low body =>
      rw [foldlM_cons] at hrest
      obtain ⟨d₂, hlow, hrest₂⟩ := Option.bind_eq_some_iff.mp hrest
      rw [bodyByte_of_room h₁ hroom, step] at hlow
      obtain rfl := Option.some.inj hlow
      have h₂ : Decoded header size out
          { d with op := .distanceHigh, remaining := (byte &&& 0x3F).toNat + 3,
                   distance := low.toNat } := h.congr rfl
      cases body with
      | nil =>
        obtain rfl := Option.some.inj hrest₂
        cases hend
      | cons high body =>
        rw [foldlM_cons] at hrest₂
        obtain ⟨d₃, hhigh, -⟩ := Option.bind_eq_some_iff.mp hrest₂
        rw [bodyByte_of_room h₂ hroom, step] at hhigh
        dsimp only at hhigh
        split_ifs at hhigh with hbounds
        · cases hhigh
        generalize hloop : emitLoop _ _ _ = r at hhigh
        rcases r with ⟨_ | _, d₄⟩
        · cases hhigh
        have h₃ : Decoded header size out
            { d with op := .distanceHigh, remaining := (byte &&& 0x3F).toNat + 3,
                     distance := low.toNat ||| (high.toNat <<< 8) } := h.congr rfl
        obtain ⟨hbytes, hformat⟩ := copy_bytes hrun low high body
        rw [not_or, h.filled] at hbounds
        refine ⟨_, _, hbytes, hformat, ⟨Nat.succ_pos _, Nat.pos_of_ne_zero hbounds.1,
          Nat.le_of_not_lt hbounds.2⟩, ?_⟩
        exact room_of_emitLoop h₃ hroom.le rfl hloop

/-- **The watch accepts no other bodies**: what it takes to the end of an operation, valid operations
write. -/
theorem exists_ops_of_foldlM (n : ℕ) :
    ∀ {body out : List UInt8} {d d' : TbImageDecoder}, body.length ≤ n → out.length ≤ size →
      Decoded header size out d → d.op = .none → body.foldlM bodyByte d = some d' →
      d'.op = .none → ∃ ops, body = bodyBytes ops ∧ Written size out ops := by
  induction n with
  | zero =>
    intro body out d d' hlen hle h hop hfold hend
    obtain rfl := length_eq_zero_iff.mp (Nat.le_zero.mp hlen)
    exact ⟨[], rfl, by simp, trivial, hle⟩
  | succ n ih =>
    intro body out d d' hlen hle h hop hfold hend
    cases body with
    | nil => exact ⟨[], rfl, by simp, trivial, hle⟩
    | cons byte body =>
      obtain ⟨op, rest, hbytes, hformat, hvalid, hfits⟩ := exists_op_of_foldlM h hop hfold hend
      obtain ⟨d₁, hfold₁, h₁, hop₁⟩ := foldlM_opBytes h hop hvalid hformat hfits
      have hrest : rest.length ≤ n := by
        have hlength := congrArg List.length hbytes
        have hpos : 0 < (opBytes op).length := by cases op <;> simp [opBytes]
        rw [length_append] at hlength
        omega
      rw [hbytes, foldlM_append, hfold₁] at hfold
      obtain ⟨ops, rfl, hwritten⟩ := ih hrest (by rw [Op.length_apply hvalid]; exact hfits) h₁ hop₁
        hfold hend
      exact ⟨op :: ops, hbytes, hwritten.cons hformat hvalid⟩

end Body

section Chunks

structure Collecting (p : List UInt8) : Prop where
  incomplete : ¬ HeadComplete p
  valid : Tbi.headerSize ≤ p.length → headerValid p = true

theorem Collecting.valid_snoc {p : List UInt8} (h : Collecting p) {byte : UInt8}
    (hvalid : ¬ ((p ++ [byte]).length = Tbi.headerSize ∧ headerValid (p ++ [byte]) = false))
    (hlen : Tbi.headerSize ≤ (p ++ [byte]).length) : headerValid (p ++ [byte]) = true := by
  rcases Nat.lt_or_ge p.length Tbi.headerSize with hlt | hge
  · have hlast : (p ++ [byte]).length = Tbi.headerSize := by
      rw [length_append, length_singleton] at hlen ⊢
      omega
    by_contra hinvalid
    exact hvalid ⟨hlast, Bool.eq_false_of_not_eq_true hinvalid⟩
  · rw [← headerValid_of_leading (prefix_append p [byte]) hge]
    exact h.valid hge

theorem feedHead_cases (data : List UInt8) :
    ∀ {p : List UInt8} (offset : ℕ), Collecting p →
      (feedHead { head := p } data offset).status = .bad ∨
      (feedHead { head := p } data offset =
          ⟨.more, { head := p ++ data }, offset + data.length⟩ ∧ Collecting (p ++ data)) ∨
      ∃ q rest, data = q ++ rest ∧ CompleteHead (p ++ q) ∧
        feedHead { head := p } data offset =
          ⟨.headerReady, started (p ++ q) none, offset + q.length⟩ := by
  induction data with
  | nil =>
    intro p offset h
    refine Or.inr (Or.inl ⟨?_, ?_⟩)
    · simp [feedHead]
    · simpa using h
  | cons byte data ih =>
    intro p offset h
    rw [feedHead]
    split_ifs with hinvalid hcomplete
    · exact Or.inl rfl
    · by_cases hsize : tbImageSize (readHeader (p ++ [byte])) = 0 ∨
          65535 < tbImageSize (readHeader (p ++ [byte]))
      · simp [parseHeader, hsize]
      · have hhead : CompleteHead (p ++ [byte]) :=
          ⟨hcomplete.2, h.valid_snoc hinvalid hcomplete.1, by omega, by omega⟩
        refine Or.inr (Or.inr ⟨[byte], data, rfl, hhead, ?_⟩)
        simp [parseHeader, hsize, started]
    · have hnext : Collecting (p ++ [byte]) :=
        ⟨not_headComplete_snoc h.incomplete hcomplete, h.valid_snoc hinvalid⟩
      rcases ih (offset + 1) hnext with hbad | ⟨hmore, hcollect⟩ | ⟨q, rest, rfl, hhead, hready⟩
      · exact Or.inl hbad
      · rw [← append_cons] at hmore hcollect
        refine Or.inr (Or.inl ⟨?_, hcollect⟩)
        rw [hmore, length_cons, Nat.add_right_comm, Nat.add_assoc]
      · rw [← append_cons] at hready hhead
        refine Or.inr (Or.inr ⟨byte :: q, rest, rfl, hhead, ?_⟩)
        rw [hready, length_cons, Nat.add_right_comm, Nat.add_assoc]

variable {buffer : ℕ → List UInt8}

def TakenAll (buffer : ℕ → List UInt8) (p : List UInt8) (d : TbImageDecoder) : Prop :=
  (Collecting p ∧ d = { head := p }) ∨
    ∃ head q, p = head ++ q ∧ CompleteHead head ∧ q.foldlM bodyByte (installed head buffer) = some d

variable {d : TbImageDecoder}

theorem ne_nil_of_done {head body : List UInt8} (hhead : CompleteHead head)
    (hfold : body.foldlM bodyByte (installed head buffer) = some d) (hdone : bodyStatus d = .done) :
    body ≠ [] := by
  rintro rfl
  obtain rfl := Option.some.inj hfold
  have hroom : (installed head buffer).filled < (installed head buffer).size := hhead.size_pos
  rw [bodyStatus, if_pos (Or.inl hroom)] at hdone
  cases hdone

theorem feed_body_cases {head q : List UInt8}
    (hfold : q.foldlM bodyByte (installed head buffer) = some d) (chunk : List UInt8) :
    (tbImageFeed d chunk).status = .bad ∨
      ∃ d', tbImageFeed d chunk = ⟨bodyStatus d', d', chunk.length⟩ ∧
        (q ++ chunk).foldlM bodyByte (installed head buffer) = some d' := by
  have hframe := sameFrame_foldlM hfold
  have hready : d.headerReady = true := hframe.headerReady
  have hpixels : d.pixels ≠ none := by
    intro hnone
    have hmap := hframe.pixels
    rw [hnone] at hmap
    cases hmap
  rcases hbody : feedBody d chunk with ⟨_ | _, d'⟩
  · left
    simp [tbImageFeed, hready, hpixels, hbody]
  · have hchunk := (feedBody_eq_foldlM d d' chunk).mp hbody
    refine Or.inr ⟨d', tbImageFeed_body hready hpixels hchunk, ?_⟩
    rw [foldlM_append, hfold]
    exact hchunk

theorem bodyStatus_ne_headerReady (d : TbImageDecoder) : bodyStatus d ≠ .headerReady := by
  unfold bodyStatus
  split_ifs <;> decide

theorem feedChunk_ne_nil (d : TbImageDecoder) (chunk : List UInt8) :
    (feedChunk buffer d chunk).1 ≠ [] := by
  unfold feedChunk
  dsimp only
  split_ifs <;> simp

/-- **A chunk that is not refused is taken**, and one that ends with `done` ends an image. -/
theorem takenAll_feedChunk {p chunk : List UInt8} (h : TakenAll buffer p d)
    (hbad : .bad ∉ (feedChunk buffer d chunk).1) :
    TakenAll buffer (p ++ chunk) (feedChunk buffer d chunk).2 ∧
      ((feedChunk buffer d chunk).1.getLast? = some .done →
        ∃ head body, p ++ chunk = head ++ body ∧
          Decodes head body buffer (feedChunk buffer d chunk).2) := by
  rcases h with ⟨hcollect, rfl⟩ | ⟨head, q, rfl, hhead, hfold⟩
  · have hfeed : tbImageFeed { head := p } chunk = feedHead { head := p } chunk 0 := rfl
    rcases feedHead_cases chunk 0 hcollect with hrefused | ⟨hmore, hnext⟩ | ⟨q, rest, rfl, hhead, hready⟩
    · refine absurd ?_ hbad
      simp [feedChunk, hfeed, hrefused]
    · have hfed : feedChunk buffer { head := p } chunk = ([.more], { head := p ++ chunk }) := by
        simp [feedChunk, hfeed, hmore]
      rw [hfed]
      exact ⟨Or.inl ⟨hnext, rfl⟩, fun hlast => absurd hlast (by simp)⟩
    · have hfed : feedChunk buffer { head := p } (q ++ rest) =
          if rest = [] then ([.headerReady], installed (p ++ q) buffer)
          else ([.headerReady, (tbImageFeed (installed (p ++ q) buffer) rest).status],
            (tbImageFeed (installed (p ++ q) buffer) rest).decoder) := by
        rw [feedChunk, hfeed, hready]
        simp only [if_true, Nat.zero_add, drop_left]
        rfl
      rw [hfed] at hbad ⊢
      rcases eq_or_ne rest [] with rfl | hne
      · exact ⟨Or.inr ⟨p ++ q, [], by simp, hhead, rfl⟩, fun hlast => absurd hlast (by simp)⟩
      · rw [if_neg hne] at hbad ⊢
        have hstart : [].foldlM bodyByte (installed (p ++ q) buffer) =
            some (installed (p ++ q) buffer) := rfl
        rcases feed_body_cases hstart rest with hrefused | ⟨d', hagain, hfold'⟩
        · exact absurd (by simp [hrefused]) hbad
        rw [hagain, ← append_assoc]
        refine ⟨Or.inr ⟨p ++ q, rest, rfl, hhead, hfold'⟩, fun hlast => ?_⟩
        have hdone : bodyStatus d' = .done := by simpa using hlast
        exact ⟨p ++ q, rest, rfl, hhead, hne, hfold', hdone⟩
  · rcases feed_body_cases hfold chunk with hrefused | ⟨d', hfed, hfold'⟩
    · refine absurd ?_ hbad
      simp [feedChunk, hrefused]
    have hchunk : feedChunk buffer d chunk = ([bodyStatus d'], d') := by
      simp [feedChunk, hfed, bodyStatus_ne_headerReady]
    rw [hchunk, append_assoc]
    refine ⟨Or.inr ⟨head, q ++ chunk, rfl, hhead, hfold'⟩, fun hlast => ?_⟩
    have hdone : bodyStatus d' = .done := by simpa using hlast
    exact ⟨head, q ++ chunk, rfl, hhead, ne_nil_of_done hhead hfold' hdone, hfold', hdone⟩

variable (chunks : List (List UInt8))

theorem takenAll_feedChunks :
    ∀ {p : List UInt8} {d : TbImageDecoder}, TakenAll buffer p d →
      .bad ∉ (feedChunks buffer d chunks).1 →
      (feedChunks buffer d chunks).1.getLast? = some .done →
      ∃ head body, p ++ chunks.flatten = head ++ body ∧
        Decodes head body buffer (feedChunks buffer d chunks).2 := by
  induction chunks with
  | nil =>
    intro p d _ _ hlast
    cases hlast
  | cons chunk chunks ih =>
    intro p d h hbad hlast
    simp only [feedChunks, mem_append, not_or] at hbad
    obtain ⟨hnext, hend⟩ := takenAll_feedChunk h hbad.1
    simp only [feedChunks] at hlast ⊢
    cases chunks with
    | nil =>
      simp only [feedChunks, append_nil, flatten_cons, flatten_nil] at hlast ⊢
      exact hend hlast
    | cons chunk' chunks =>
      have hne : (feedChunks buffer (feedChunk buffer d chunk).2 (chunk' :: chunks)).1 ≠ [] := by
        exact append_ne_nil_of_left_ne_nil (feedChunk_ne_nil _ _) _
      rw [List.getLast?_append_of_ne_nil _ hne] at hlast
      rw [flatten_cons, ← append_assoc]
      exact ih hnext hbad.2 hlast

theorem after_tbImageReset {head : List UInt8} (h : CompleteHead head) :
    After head buffer [] tbImageReset := by
  refine Or.inl ⟨?_, rfl⟩
  rw [h.length]
  exact Nat.add_pos_left (by decide) _

/-- **What the watch decodes in chunks, it decodes as a whole**, wherever they are cut. -/
theorem feedChunks_iff :
    .bad ∉ (feedChunks buffer tbImageReset chunks).1 ∧
        (feedChunks buffer tbImageReset chunks).1.getLast? = some .done ↔
      ∃ head body, chunks.flatten = head ++ body ∧
        Decodes head body buffer (feedChunks buffer tbImageReset chunks).2 := by
  constructor
  · rintro ⟨hbad, hlast⟩
    have hreset : TakenAll buffer [] tbImageReset :=
      Or.inl ⟨⟨by decide, fun hlen => absurd hlen (by decide)⟩, rfl⟩
    exact takenAll_feedChunks chunks hreset hbad hlast
  · rintro ⟨head, body, hstream, h⟩
    obtain ⟨hbad, hlast, -⟩ := feedChunks_spec h chunks hstream (after_tbImageReset h.complete)
    refine ⟨hbad, hlast ?_⟩
    rintro rfl
    exact h.body_ne (append_eq_nil_iff.mp hstream.symm).2

end Chunks

end Watch

namespace Tbi

section Agree

def Header.ofWatch (header : Watch.TbImageHeader) : Header where
  bits := header.bits
  shape := header.shape
  colors := header.colors
  width := header.width
  height := header.height
  canvasWidth := header.canvasWidth
  canvasHeight := header.canvasHeight
  tag := header.tag
  crc := header.crc
  palette := header.palette

structure HeaderAccepted (stream : List UInt8) : Prop where
  valid : Watch.headerValid stream = true
  length : headerSize + (stream.getD 5 0).toNat ≤ stream.length
  canvasWidth_le : (parseHeader stream).canvasWidth ≤ maxCanvas
  canvasHeight_le : (parseHeader stream).canvasHeight ≤ maxCanvas

variable (stream : List UInt8)

theorem headerValid_iff :
    Watch.headerValid stream = true ↔ stream.getD 0 0 = 0x54 ∧ stream.getD 1 0 = 0x42 ∧
      stream.getD 2 0 = 1 ∧ ((parseHeader stream).bits = 1 ∨ (parseHeader stream).bits = 2 ∨
        (parseHeader stream).bits = 4) ∧ (parseHeader stream).shape ≤ 1 ∧
      1 ≤ (parseHeader stream).colors ∧
      (parseHeader stream).colors ≤ 1 <<< (parseHeader stream).bits ∧
      0 < (parseHeader stream).width ∧ 0 < (parseHeader stream).height ∧
      (parseHeader stream).width ≤ (parseHeader stream).canvasWidth ∧
      (parseHeader stream).height ≤ (parseHeader stream).canvasHeight := by
  have hshape : stream.getD 4 0 ≤ 1 ↔ (stream.getD 4 0).toNat ≤ 1 := Iff.rfl
  simp only [Watch.headerValid, Bool.and_eq_true, Bool.or_eq_true, beq_iff_eq, decide_eq_true_eq,
    and_assoc, or_assoc, hshape]
  rfl

theorem headerAccepted_iff :
    HeaderAccepted stream ↔
      ¬ (stream.length < headerSize ∨ stream.getD 0 0 ≠ 0x54 ∨ stream.getD 1 0 ≠ 0x42 ∨
        stream.getD 2 0 ≠ 1) ∧
      ¬ (((parseHeader stream).bits ≠ 1 ∧ (parseHeader stream).bits ≠ 2 ∧
          (parseHeader stream).bits ≠ 4) ∨ 1 < (parseHeader stream).shape ∨
        (parseHeader stream).colors < 1 ∨
        1 <<< (parseHeader stream).bits < (parseHeader stream).colors ∨
        (parseHeader stream).width = 0 ∨ (parseHeader stream).height = 0 ∨
        (parseHeader stream).canvasWidth < (parseHeader stream).width ∨
        (parseHeader stream).canvasHeight < (parseHeader stream).height ∨
        maxCanvas < (parseHeader stream).canvasWidth ∨
        maxCanvas < (parseHeader stream).canvasHeight ∨
        stream.length < headerSize + (parseHeader stream).colors) := by
  have hcolors : (parseHeader stream).colors = (stream.getD 5 0).toNat := rfl
  constructor
  · rintro ⟨hv, hlen, hw, hh⟩
    obtain ⟨h0, h1, h2, hbits, hs, hc, hc', hw0, hh0, hw', hh'⟩ := (headerValid_iff stream).mp hv
    refine ⟨?_, ?_⟩
    · rintro (h | h | h | h)
      · omega
      · exact h h0
      · exact h h1
      · exact h h2
    · omega
  · rintro ⟨hmagic, hfields⟩
    simp only [not_or, not_lt, ne_eq, not_not] at hmagic
    refine ⟨(headerValid_iff stream).mpr ⟨hmagic.2.1, hmagic.2.2.1, hmagic.2.2.2, ?_⟩, ?_, ?_, ?_⟩ <;> omega

variable {header : Header}

theorem decode_eq_ok_iff {stream packed : List UInt8} :
    decode stream = .ok (header, packed) ↔
      HeaderAccepted stream ∧ header = parseHeader stream ∧ header.size ≤ maxBytes ∧
        (∃ ops, stream.drop (headerSize + (stream.getD 5 0).toNat) = bodyBytes ops ∧
          Written header.size.toNat [] ops ∧ packed = expand [] ops) ∧
        (packed.length : ℤ) = header.size ∧
        (Watch.tbImageCrc 0 packed).toNat = header.crc := by
  rw [headerAccepted_iff]
  unfold decode
  dsimp only
  split_ifs with hmagic hfields hsize
  · exact ⟨(fun h => nomatch h), fun h => absurd hmagic h.1.1⟩
  · exact ⟨(fun h => nomatch h), fun h => absurd hfields h.1.2⟩
  · constructor
    · intro h
      cases h
    · rintro ⟨-, rfl, hle, -⟩
      omega
  · have hcolors : (parseHeader stream).colors = (stream.getD 5 0).toNat := rfl
    rw [hcolors]
    constructor
    · intro h
      split at h
      · cases h
      · next out hbody =>
        split_ifs at h with hdata
        rw [not_or, not_not, not_not] at hdata
        obtain ⟨rfl, rfl⟩ := Prod.mk.inj (Except.ok.inj h)
        exact ⟨⟨hmagic, hfields⟩, rfl, not_lt.mp hsize, decodeBody_eq_ok_iff.mp hbody, hdata⟩
    · rintro ⟨-, rfl, -, hops, hlen, hcrc⟩
      rw [decodeBody_eq_ok_iff.mpr hops]
      dsimp only
      rw [if_neg (by simp [hlen, hcrc])]

variable {head : List UInt8}

theorem parseHeader_append
    (hlen : head.length = headerSize + (head.getD 5 0).toNat) (body : List UInt8) :
    parseHeader (head ++ body) = Header.ofWatch (Watch.readHeader head) := by
  have hget : ∀ i < 22, (head ++ body).getD i 0 = head.getD i 0 := by
    intro i hi
    have hsize : headerSize = 22 := rfl
    exact getD_append _ _ _ _ (by omega)
  have hpalette : ((head ++ body).drop headerSize).take (head.getD 5 0).toNat =
      (head.drop headerSize).take (head.getD 5 0).toNat := by
    rw [drop_append_of_le_length (by omega), take_append_of_le_length]
    rw [length_drop]
    omega
  simp (disch := decide) only [parseHeader, word16, word32, hget, hpalette]
  rfl

theorem size_ofWatch (hvalid : Watch.headerValid head = true)
    (hw : (Watch.readHeader head).canvasWidth ≤ 1024)
    (hh : (Watch.readHeader head).canvasHeight ≤ 1024) :
    (Header.ofWatch (Watch.readHeader head)).size = Watch.tbImageSize (Watch.readHeader head) := by
  obtain ⟨-, -, -, hbits, -, -, -, hw0, hh0, hw', hh'⟩ := (headerValid_iff head).mp hvalid
  have hbits' : (Watch.readHeader head).bits = 1 ∨ (Watch.readHeader head).bits = 2 ∨
      (Watch.readHeader head).bits = 4 := hbits
  have hw0' : 0 < (Watch.readHeader head).width := hw0
  have hh0' : 0 < (Watch.readHeader head).height := hh0
  have hwidth : (Watch.readHeader head).width ≤ (Watch.readHeader head).canvasWidth := hw'
  have hheight : (Watch.readHeader head).height ≤ (Watch.readHeader head).canvasHeight := hh'
  refine (Watch.tbImageSize_eq _ ⟨?_, ?_, ?_, ?_, ?_, ?_, ?_⟩).symm <;> omega

/-- The limits that only the decoder of the watch has. -/
structure InLimits (stream : List UInt8) : Prop where
  canvasWidth_le : (parseHeader stream).canvasWidth ≤ 1024
  canvasHeight_le : (parseHeader stream).canvasHeight ≤ 1024
  size_pos : 1 ≤ (parseHeader stream).size
  size_le : (parseHeader stream).size ≤ 65535

variable {buffer : ℕ → List UInt8}

section

variable (hbuffer : ∀ n, (buffer n).length = n)
include hbuffer

theorem decoded_installed (head : List UInt8) :
    Watch.Decoded (Watch.readHeader head) (Watch.tbImageSize (Watch.readHeader head)) []
      (Watch.installed head buffer) :=
  ⟨rfl, rfl, rfl, rfl, _, rfl, hbuffer _, rfl⟩

theorem decodes_of_decode {stream packed : List UInt8}
    (hlimits : headerSize ≤ stream.length → InLimits stream)
    (h : decode stream = .ok (header, packed)) :
    ∃ head body last, stream = head ++ body ∧ Watch.Decodes head body buffer last ∧
      header = Header.ofWatch last.header ∧ last.pixels = some packed := by
  obtain ⟨haccepted, rfl, -, ⟨ops, hops, hwritten, rfl⟩, hlen, hcrc⟩ := decode_eq_ok_iff.mp h
  obtain ⟨hvalid, hle, -, -⟩ := haccepted
  have hlimits := hlimits (by omega)
  set n := headerSize + (stream.getD 5 0).toNat with hn
  have hsize22 : headerSize = 22 := rfl
  have hfive : (stream.take n).getD 5 0 = stream.getD 5 0 :=
    Watch.getD_of_leading (List.take_prefix n stream) (by rw [length_take]; omega)
  have hlength : (stream.take n).length = headerSize + ((stream.take n).getD 5 0).toNat := by
    rw [hfive, length_take]
    omega
  have hhead := parseHeader_append hlength (stream.drop n)
  rw [take_append_drop] at hhead
  have hvalid' : Watch.headerValid (stream.take n) = true := by
    rw [Watch.headerValid_of_leading (List.take_prefix n stream) (by omega)]
    exact hvalid
  have hcanvas := hlimits.canvasWidth_le
  have hcanvas' := hlimits.canvasHeight_le
  rw [hhead] at hcanvas hcanvas'
  have hsize := size_ofWatch hvalid' hcanvas hcanvas'
  rw [← hhead] at hsize
  have hpos := hlimits.size_pos
  have hmax := hlimits.size_le
  rw [hsize] at hpos hmax hlen hwritten
  have hcomplete : Watch.CompleteHead (stream.take n) :=
    ⟨hlength, hvalid', by omega, by omega⟩
  obtain ⟨last, hfold, hlast, hop⟩ := Watch.foldlM_bodyBytes ops (decoded_installed hbuffer _) rfl
    hwritten.valid hwritten.format hwritten.room
  obtain ⟨pixels, hpixels, hpixelslen, htake⟩ := hlast.pixels
  -- the image is full, so that the buffer is the text
  have hfull : (expand [] ops).length = Watch.tbImageSize (Watch.readHeader (stream.take n)) := by
    exact_mod_cast hlen
  rw [hfull, ← hpixelslen, take_length] at htake
  have hdone : Watch.bodyStatus last = .done := by
    rw [Watch.bodyStatus, if_neg, if_pos]
    · rw [hpixels, Option.getD_some, hlast.size_eq, ← hpixelslen, take_length, htake,
        hlast.header, hcrc, hhead]
      rfl
    · rw [hlast.filled, hlast.size_eq, hfull, hop]
      simp
  refine ⟨stream.take n, stream.drop n, last, (take_append_drop n stream).symm, ?_, ?_, ?_⟩
  · rw [hops]
    exact ⟨hcomplete, Watch.ne_nil_of_done hcomplete hfold hdone, hfold, hdone⟩
  · rw [hhead, hlast.header]
  · rw [hpixels, htake]

theorem decode_of_decodes {body : List UInt8}
    {last : Watch.TbImageDecoder} (hlimits : InLimits (head ++ body))
    (h : Watch.Decodes head body buffer last) :
    ∃ packed, decode (head ++ body) = .ok (Header.ofWatch (Watch.readHeader head), packed) := by
  obtain ⟨hhead, -, hfold, hdone⟩ := h
  have hparse := parseHeader_append hhead.length body
  have hcanvas := hlimits.canvasWidth_le
  have hcanvas' := hlimits.canvasHeight_le
  rw [hparse] at hcanvas hcanvas'
  have hsize := size_ofWatch hhead.valid hcanvas hcanvas'
  have hend : ¬ (last.filled < last.size ∨ last.op ≠ .none) := by
    intro hmore
    rw [Watch.bodyStatus, if_pos hmore] at hdone
    cases hdone
  rw [Watch.bodyStatus, if_neg hend] at hdone
  have hcrc : (Watch.tbImageCrc 0 ((last.pixels.getD []).take last.size)).toNat =
      last.header.crc := by
    by_contra hne
    rw [if_neg hne] at hdone
    cases hdone
  rw [not_or, not_lt, not_not] at hend
  obtain ⟨ops, rfl, hwritten⟩ := Watch.exists_ops_of_foldlM body.length le_rfl (Nat.zero_le _)
    (decoded_installed hbuffer head) rfl hfold hend.2
  obtain ⟨last', hfold', hlast, -⟩ := Watch.foldlM_bodyBytes ops (decoded_installed hbuffer head) rfl
    hwritten.valid hwritten.format hwritten.room
  obtain rfl : last' = last := Option.some.inj (hfold'.symm.trans hfold)
  obtain ⟨pixels, hpixels, hpixelslen, htake⟩ := hlast.pixels
  have hfull : (expand [] ops).length = Watch.tbImageSize (Watch.readHeader head) := by
    have hle := hend.1
    rw [hlast.filled, hlast.size_eq] at hle
    exact Nat.le_antisymm hwritten.room hle
  rw [hpixels, Option.getD_some, hlast.size_eq, ← hfull, htake, hlast.header] at hcrc
  have hfive : (head ++ bodyBytes ops).getD 5 0 = head.getD 5 0 :=
    getD_append _ _ _ _ (by rw [hhead.length]; exact Nat.lt_add_right _ (by decide))
  refine ⟨expand [] ops, decode_eq_ok_iff.mpr ⟨⟨?_, ?_, ?_, ?_⟩, hparse.symm, ?_, ⟨ops, ?_, ?_, rfl⟩,
    ?_, hcrc⟩⟩
  · rw [← Watch.headerValid_of_leading (prefix_append head _) (by rw [hhead.length]; omega)]
    exact hhead.valid
  · rw [hfive, length_append, hhead.length]
    omega
  · exact hlimits.canvasWidth_le
  · exact hlimits.canvasHeight_le
  · have hmax := hlimits.size_le
    rw [hparse] at hmax
    exact hmax.trans (by decide)
  · rw [hfive, ← hhead.length, drop_left]
  · rw [hsize, Int.toNat_natCast]
    exact hwritten
  · rw [hsize, hfull]

end

end Agree

end Tbi

/-- **The decoders agree**: on every stream within the limits of the watch, wherever it is cut, the
renderer decodes it if and only if the watch refuses no chunk and ends with `done`; and then the two
have the same header, palette and bytes. -/
theorem decode_iff_feedChunks {buffer : ℕ → List UInt8} (hbuffer : ∀ n, (buffer n).length = n)
    {stream : List UInt8} {chunks : List (List UInt8)} (hchunks : chunks.flatten = stream)
    (hlimits : Tbi.headerSize ≤ stream.length → Tbi.InLimits stream) :
    let fed := Watch.feedChunks buffer Watch.tbImageReset chunks
    ((∃ result, Tbi.decode stream = .ok result) ↔ .bad ∉ fed.1 ∧ fed.1.getLast? = some .done) ∧
      ∀ header packed, Tbi.decode stream = .ok (header, packed) →
        header = Tbi.Header.ofWatch fed.2.header ∧ fed.2.pixels = some packed := by
  intro fed
  have hforth : ∀ {header packed}, Tbi.decode stream = .ok (header, packed) →
      ∃ head body, chunks.flatten = head ++ body ∧ Watch.Decodes head body buffer fed.2 ∧
        header = Tbi.Header.ofWatch fed.2.header ∧ fed.2.pixels = some packed := by
    intro header packed h
    obtain ⟨head, body, last, rfl, hdecodes, hheader, hpixels⟩ :=
      Tbi.decodes_of_decode hbuffer hlimits h
    obtain ⟨-, -, hafter⟩ := Watch.feedChunks_spec hdecodes chunks hchunks
      (Watch.after_tbImageReset hdecodes.complete)
    obtain rfl : fed.2 = last := Watch.After.eq_last hdecodes hafter
    exact ⟨head, body, hchunks, hdecodes, hheader, hpixels⟩
  refine ⟨?_, fun header packed h => ?_⟩
  · rw [Watch.feedChunks_iff]
    constructor
    · rintro ⟨⟨header, packed⟩, h⟩
      obtain ⟨head, body, hsplit, hdecodes, -⟩ := hforth h
      exact ⟨head, body, hsplit, hdecodes⟩
    · rintro ⟨head, body, hsplit, hdecodes⟩
      obtain rfl : stream = head ++ body := hchunks.symm.trans hsplit
      have hlen : Tbi.headerSize ≤ (head ++ body).length := by
        rw [List.length_append, hdecodes.complete.length]
        omega
      obtain ⟨packed, h⟩ := Tbi.decode_of_decodes hbuffer (hlimits hlen) hdecodes
      exact ⟨_, h⟩
  · obtain ⟨-, -, -, -, hheader, hpixels⟩ := hforth h
    exact ⟨hheader, hpixels⟩

def rowChunks : List (List UInt8) :=
  [[0x54, 0x42, 1, 1, 0, 1, 8, 0, 1, 0], [8, 0, 1, 0, 7, 0, 0, 0, 0x7B, 0xA5, 0x01, 0xE4, 0xC0, 0],
    [0xAA]]

theorem decode_iff_feedChunks_row :
    .bad ∉ (Watch.feedChunks (List.replicate · 0) Watch.tbImageReset rowChunks).1 ∧
      (Watch.feedChunks (List.replicate · 0) Watch.tbImageReset rowChunks).2.pixels = some [0xAA] := by
  have hlimits : Tbi.InLimits rowChunks.flatten :=
    ⟨by decide +kernel, by decide +kernel, by decide +kernel, by decide +kernel⟩
  have hdecode : Tbi.decode rowChunks.flatten =
      .ok (Tbi.parseHeader rowChunks.flatten, [0xAA]) := by
    rfl
  obtain ⟨hiff, hsame⟩ := decode_iff_feedChunks (fun n => List.length_replicate) rfl
    (fun _ => hlimits)
  exact ⟨(hiff.mp ⟨_, hdecode⟩).1, (hsame _ _ hdecode).2⟩
