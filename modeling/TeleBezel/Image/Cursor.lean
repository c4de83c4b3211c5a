import TeleBezel.Image.Decoder

/-!
# How far a stream has come

What a stream has come to can be told by counting alone: the operation in progress, the bytes it
still wants and the room left in the image. The decoder of the watch keeps to that count as long
as it refuses nothing.
-/

open List

namespace Watch

/-- The operation in progress, the bytes it still wants and the room left in the image. -/
structure Cursor where
  op : TbImageOp
  remaining : ℕ
  room : ℕ

def Cursor.next (c : Cursor) (byte : UInt8) : Cursor :=
  match c.op with
  | .none =>
    if byte < 0x80 then ⟨.literal, byte.toNat + 1, c.room⟩
    else if byte < 0xC0 then ⟨.repeat, (byte &&& 0x3F).toNat + 3, c.room⟩
    else ⟨.distanceLow, (byte &&& 0x3F).toNat + 3, c.room⟩
  | .literal =>
    ⟨if c.remaining - 1 = 0 then .none else .literal, c.remaining - 1, c.room - 1⟩
  | .distanceLow => ⟨.distanceHigh, c.remaining, c.room⟩
  | .repeat => ⟨.none, 0, c.room - c.remaining⟩
  | .distanceHigh => ⟨.none, 0, c.room - c.remaining⟩

def Cursor.follow (c : Cursor) (data : List UInt8) : Cursor := data.foldl Cursor.next c

def HeadComplete (stream : List UInt8) : Prop :=
  Tbi.headerSize ≤ stream.length ∧ Tbi.headerSize + (stream.getD 5 0).toNat ≤ stream.length

instance (stream : List UInt8) : Decidable (HeadComplete stream) :=
  inferInstanceAs (Decidable (_ ∧ _))

/-- The tag that the header of a stream names, and the count after the stream. -/
def streamCursor (stream : List UInt8) : Option (ℕ × Cursor) :=
  if HeadComplete stream then
    let n := Tbi.headerSize + (stream.getD 5 0).toNat
    let header := readHeader (stream.take n)
    some (header.tag, Cursor.follow ⟨.none, 0, tbImageSize header⟩ (stream.drop n))
  else none

def cursorOf (d : TbImageDecoder) : Cursor := ⟨d.op, d.remaining, d.size - d.filled⟩

def cursorAfter (d : TbImageDecoder) (data : List UInt8) : Option (ℕ × Cursor) :=
  if d.headerReady then some (d.header.tag, (cursorOf d).follow data)
  else streamCursor (d.head ++ data)

/-- The decoder is within its buffer; what is in progress without room left is a literal. -/
structure InBuffer (d : TbImageDecoder) : Prop where
  filled_le : d.filled ≤ d.size
  literal_of_full : d.filled = d.size → d.op = .none ∨ d.op = .literal

theorem emit_eq_true {d d' : TbImageDecoder} {value : UInt8} (h : emit d value = (true, d')) :
    d.filled < d.size ∧ d'.filled = d.filled + 1 ∧ d'.size = d.size ∧ d'.op = d.op ∧
      d'.remaining = d.remaining := by
  unfold emit at h
  split_ifs at h with hfull
  · cases h
  · cases h
    exact ⟨by omega, rfl, rfl, rfl, rfl⟩

theorem emitLoop_eq_true {source : TbImageDecoder → UInt8} (n : ℕ) :
    ∀ {d d' : TbImageDecoder}, emitLoop source n d = (true, d') → d.remaining = n →
      d.filled ≤ d.size →
      d'.filled = d.filled + n ∧ d'.remaining = 0 ∧ d'.size = d.size ∧ d'.filled ≤ d'.size := by
  induction n with
  | zero =>
    intro d d' h hremaining hle
    cases h
    exact ⟨rfl, hremaining, rfl, hle⟩
  | succ n ih =>
    intro d d' h _ _
    rw [emitLoop] at h
    rcases hemit : emit d (source d) with ⟨_ | _, d₁⟩
    · rw [hemit] at h
      cases h
    · rw [hemit] at h
      obtain ⟨hroom, hfilled, hsize, -, -⟩ := emit_eq_true hemit
      obtain ⟨h₁, h₂, h₃, h₄⟩ := ih h rfl (by simp only [hfilled, hsize]; omega)
      simp only [hfilled, hsize] at h₁ h₃
      exact ⟨by omega, h₂, h₃, h₄⟩

theorem bodyByte_sound {d d' : TbImageDecoder} {byte : UInt8} (hwithin : InBuffer d)
    (h : bodyByte d byte = some d') : InBuffer d' ∧ cursorOf d' = (cursorOf d).next byte := by
  unfold bodyByte at h
  split_ifs at h with hfull
  have hle := hwithin.filled_le
  cases hop : d.op with
  | none =>
    have hroom : d.filled < d.size := by
      by_contra hge
      exact hfull ⟨by omega, hop⟩
    rw [step, hop] at h
    simp only at h
    split_ifs at h with hliteral hrepeat <;> cases h
    · exact ⟨⟨hle, fun _ => Or.inr rfl⟩, by simp [cursorOf, Cursor.next, hop, hliteral]⟩
    · exact ⟨⟨hle, fun hfilled => absurd hfilled hroom.ne⟩,
        by simp [cursorOf, Cursor.next, hop, hliteral, hrepeat]⟩
    · exact ⟨⟨hle, fun hfilled => absurd hfilled hroom.ne⟩,
        by simp [cursorOf, Cursor.next, hop, hliteral, hrepeat]⟩
  | literal =>
    rw [step, hop] at h
    rcases hemit : emit d byte with ⟨_ | _, d₁⟩
    · simp only [hemit, taken] at h
      cases h
    · obtain ⟨hroom, hfilled, hsize, hop₁, hremaining⟩ := emit_eq_true hemit
      simp only [hemit, taken, Option.some.injEq, hremaining] at h
      split_ifs at h with hlast
      · subst h
        refine ⟨⟨by simp only; omega, fun _ => Or.inl rfl⟩, ?_⟩
        simp only [cursorOf, Cursor.next, hop, hlast, if_true, hfilled, hsize, Nat.sub_sub]
      · subst h
        refine ⟨⟨by simp only; omega, fun _ => Or.inr (hop₁.trans hop)⟩, ?_⟩
        simp only [cursorOf, Cursor.next, hop, hlast, if_false, hfilled, hsize, hop₁, Nat.sub_sub]
  | «repeat» =>
    rw [step, hop] at h
    rcases hloop : emitLoop (fun _ => byte) d.remaining d with ⟨_ | _, d₁⟩
    · simp only [hloop, taken] at h
      cases h
    · obtain ⟨hfilled, hremaining, hsize, hle₁⟩ := emitLoop_eq_true d.remaining hloop rfl hle
      simp only [hloop, taken, Option.some.injEq] at h
      subst h
      refine ⟨⟨hle₁, fun _ => Or.inl rfl⟩, ?_⟩
      simp only [cursorOf, Cursor.next, hop, hfilled, hsize, hremaining, Nat.sub_sub]
  | distanceLow =>
    have hroom : d.filled < d.size := by
      rcases Nat.lt_or_eq_of_le hle with hlt | heq
      · exact hlt
      · rcases hwithin.literal_of_full heq with hnone | hliteral
        · exact absurd (hop.symm.trans hnone) (by decide)
        · exact absurd (hop.symm.trans hliteral) (by decide)
    rw [step, hop] at h
    cases h
    exact ⟨⟨hle, fun hfilled => absurd hfilled hroom.ne⟩, by simp [cursorOf, Cursor.next, hop]⟩
  | distanceHigh =>
    rw [step, hop] at h
    simp only at h
    split_ifs at h with hdistance
    · cases h
    · generalize hloop : emitLoop _ _ _ = r at h
      rcases r with ⟨_ | _, d₁⟩
      · cases h
      · obtain ⟨hfilled, hremaining, hsize, hle₁⟩ := emitLoop_eq_true d.remaining hloop rfl hle
        cases h
        refine ⟨⟨hle₁, fun _ => Or.inl rfl⟩, ?_⟩
        simp only [cursorOf, Cursor.next, hop, hfilled, hsize, hremaining, Nat.sub_sub]

theorem foldlM_sound {data : List UInt8} :
    ∀ {d d' : TbImageDecoder}, InBuffer d → data.foldlM bodyByte d = some d' →
      InBuffer d' ∧ cursorOf d' = (cursorOf d).follow data := by
  induction data with
  | nil =>
    intro d d' hwithin h
    cases h
    exact ⟨hwithin, rfl⟩
  | cons byte data ih =>
    intro d d' hwithin h
    rw [foldlM_cons] at h
    obtain ⟨d₁, hbyte, hrest⟩ := Option.bind_eq_some_iff.mp h
    obtain ⟨hwithin₁, hcursor₁⟩ := bodyByte_sound hwithin hbyte
    obtain ⟨hwithin', hcursor'⟩ := ih hwithin₁ hrest
    exact ⟨hwithin', by rw [hcursor', hcursor₁]; rfl⟩

/-- The checksum of the pixels is that of the header. -/
def CrcMatches (d : TbImageDecoder) : Prop :=
  (tbImageCrc 0 ((d.pixels.getD []).take d.size)).toNat = d.header.crc

instance (d : TbImageDecoder) : Decidable (CrcMatches d) := inferInstanceAs (Decidable (_ = _))

/-- What holds of a decoder that has refused nothing: it collects the header, or it is within its
buffer; and a full buffer without an operation in progress was compared with the checksum. -/
structure TbImageDecoder.Sound (d : TbImageDecoder) : Prop where
  collecting : d.headerReady = false →
    d.pixels = none ∧ d.filled = 0 ∧ d.op = .none ∧ d.remaining = 0 ∧ ¬ HeadComplete d.head
  within : InBuffer d
  compared : d.headerReady = true → d.filled = d.size → d.op = .none → CrcMatches d

theorem sound_tbImageReset : tbImageReset.Sound where
  collecting _ := ⟨rfl, rfl, rfl, rfl, by decide⟩
  within := ⟨Nat.le_refl _, fun _ => Or.inl rfl⟩
  compared h := absurd h (by decide)

section Feed

variable {d : TbImageDecoder} {data : List UInt8}

/-- The decoder when a header of the bytes `head` is complete. -/
def withHead (d : TbImageDecoder) (head : List UInt8) : TbImageDecoder :=
  { d with
    head := head
    header := readHeader head
    size := tbImageSize (readHeader head)
    headerReady := true }

theorem not_headComplete_snoc {head : List UInt8} {byte : UInt8} (h : ¬ HeadComplete head)
    (hcomplete : ¬ (Tbi.headerSize ≤ (head ++ [byte]).length ∧
      (head ++ [byte]).length = Tbi.headerSize + ((head ++ [byte]).getD 5 0).toNat)) :
    ¬ HeadComplete (head ++ [byte]) := by
  rintro ⟨hsize, hcolors⟩
  simp only [HeadComplete, Tbi.headerSize, length_append, length_singleton] at *
  rcases Nat.lt_or_ge head.length 22 with hlt | hge
  · omega
  · have hfive : (head ++ [byte]).getD 5 0 = head.getD 5 0 :=
      getD_append _ _ _ _ (by omega)
    rw [hfive] at hcomplete hcolors
    omega

theorem feedHead_sound (data : List UInt8) (offset : ℕ) :
    ∀ {d : TbImageDecoder}, ¬ HeadComplete d.head →
      let fed := feedHead d data offset
      fed.status ≠ .done ∧
      (fed.status = .more → fed.decoder = { d with head := d.head ++ data } ∧
        ¬ HeadComplete (d.head ++ data) ∧ fed.used = offset + data.length) ∧
      (fed.status = .headerReady → ∃ q rest, data = q ++ rest ∧ fed.used = offset + q.length ∧
        (d.head ++ q).length = Tbi.headerSize + ((d.head ++ q).getD 5 0).toNat ∧
        0 < tbImageSize (readHeader (d.head ++ q)) ∧ fed.decoder = withHead d (d.head ++ q)) := by
  induction data generalizing offset with
  | nil =>
    intro d hhead
    refine ⟨by simp [feedHead], fun _ => ?_, by simp [feedHead]⟩
    simpa [feedHead] using hhead
  | cons byte data ih =>
    intro d hhead
    rw [feedHead]
    simp only
    split_ifs with hinvalid hcomplete
    · simp
    · rcases hparse : parseHeader { d with head := d.head ++ [byte] } with ⟨_ | _, d₁⟩
      · simp
      · refine ⟨by simp, by simp, fun _ => ⟨[byte], data, rfl, rfl, hcomplete.2, ?_⟩⟩
        unfold parseHeader at hparse
        simp only at hparse
        split_ifs at hparse with hsize
        · exact absurd (Prod.mk.inj hparse).1 (by decide)
        obtain ⟨-, rfl⟩ := Prod.mk.inj hparse
        exact ⟨Nat.pos_of_ne_zero fun hzero => hsize (Or.inl hzero), rfl⟩
    · have hnext := not_headComplete_snoc hhead hcomplete
      obtain ⟨hdone, hmore, hready⟩ := ih (offset + 1) (d := { d with head := d.head ++ [byte] }) hnext
      refine ⟨hdone, fun hstatus => ?_, fun hstatus => ?_⟩
      · obtain ⟨hd, hhead', hused⟩ := hmore hstatus
        simp only [append_assoc, singleton_append] at hd hhead'
        exact ⟨hd, hhead', by rw [hused, length_cons]; omega⟩
      · obtain ⟨q, rest, rfl, hused, hlen, hsize, hd⟩ := hready hstatus
        simp only [append_assoc, singleton_append] at hlen hsize hd
        exact ⟨byte :: q, rest, rfl, by rw [hused, length_cons]; omega, hlen, hsize, hd⟩

theorem streamCursor_append {head : List UInt8}
    (hlen : head.length = Tbi.headerSize + (head.getD 5 0).toNat) (more : List UInt8) :
    streamCursor (head ++ more) =
      some ((readHeader head).tag, Cursor.follow ⟨.none, 0, tbImageSize (readHeader head)⟩ more) := by
  have hsize : Tbi.headerSize = 22 := rfl
  have hfive : (head ++ more).getD 5 0 = head.getD 5 0 := getD_append _ _ _ _ (by omega)
  have hcomplete : HeadComplete (head ++ more) := by
    rw [HeadComplete, hfive, length_append]
    omega
  rw [streamCursor, if_pos hcomplete]
  simp only [hfive, ← hlen, take_left, drop_left]

/-- **A chunk that is not refused moves the count**, and a header that it completes starts it. -/
theorem tbImageFeed_sound (h : d.Sound) (data : List UInt8) :
    let fed := tbImageFeed d data
    (fed.status = .more ∨ fed.status = .done → fed.decoder.Sound ∧ fed.used = data.length ∧
      (fed.decoder.headerReady = true → d.headerReady = true ∧ fed.decoder.header = d.header) ∧
      ∀ more, cursorAfter fed.decoder more = cursorAfter d (data ++ more)) ∧
    (fed.status = .headerReady → ∀ pixels,
      ({ fed.decoder with pixels := some pixels } : TbImageDecoder).Sound ∧
      ∀ more, cursorAfter { fed.decoder with pixels := some pixels } more =
        cursorAfter d (data.take fed.used ++ more)) := by
  unfold tbImageFeed
  split_ifs with hready hpixels
  · obtain ⟨hnone, hfilled, hop, hremaining, hhead⟩ := h.collecting hready
    obtain ⟨hdone, hmore, hheader⟩ := feedHead_sound data 0 hhead
    refine ⟨?_, fun hstatus pixels => ?_⟩
    · rintro (hstatus | hstatus)
      · obtain ⟨hd, hhead', hused⟩ := hmore hstatus
        rw [hd, hused]
        refine ⟨⟨fun _ => ⟨hnone, hfilled, hop, hremaining, hhead'⟩,
          ⟨h.within.filled_le, h.within.literal_of_full⟩, fun hr => ?_⟩, by simp, fun hr => ?_,
          fun more => ?_⟩
        · exact absurd (hr.symm.trans hready) (by decide)
        · exact absurd (hr.symm.trans hready) (by decide)
        · simp [cursorAfter, hready]
      · exact absurd hstatus hdone
    · obtain ⟨q, rest, rfl, hused, hlen, hsize, hd⟩ := hheader hstatus
      rw [hd, hused]
      refine ⟨⟨fun hr => ?_, ⟨?_, fun hfull => ?_⟩, fun _ hfull => ?_⟩, fun more => ?_⟩
      · exact absurd hr (by simp [withHead])
      · simp [withHead, hfilled]
      · exact Or.inl hop
      · simp only [withHead, hfilled] at hfull
        omega
      · have htake : (q ++ rest).take (0 + q.length) = q := by simp
        have hstream : cursorAfter d (q ++ more) =
            some ((readHeader (d.head ++ q)).tag,
              Cursor.follow ⟨.none, 0, tbImageSize (readHeader (d.head ++ q))⟩ more) := by
          simp only [cursorAfter, hready, Bool.false_eq_true, if_false]
          rw [← append_assoc, streamCursor_append hlen]
        rw [htake, hstream]
        simp [cursorAfter, cursorOf, withHead, hop, hremaining, hfilled]
  · simp
  · rcases hbody : feedBody d data with ⟨_ | _, d'⟩
    · simp
    · have hfold := (feedBody_eq_foldlM d d' data).mp hbody
      obtain ⟨hwithin, hcursor⟩ := foldlM_sound h.within hfold
      have hframe := sameFrame_foldlM hfold
      have hready' : d.headerReady = true := by simpa using hready
      have hready'' : d'.headerReady = true := hframe.headerReady.trans hready'
      refine ⟨fun hstatus => ⟨⟨fun hr => ?_, hwithin, fun _ hfull hop => ?_⟩, rfl,
        fun _ => ⟨hready', hframe.header⟩, fun more => ?_⟩, ?_⟩
      · exact absurd (hready''.symm.trans hr) (by decide)
      · -- a full buffer without an operation in progress is not `more`, so the checksum matched
        have hnot : ¬ (d'.filled < d'.size ∨ d'.op ≠ .none) := by
          rw [hfull, hop]
          simp
        simp only [bodyStatus, if_neg hnot] at hstatus
        by_contra hcrc
        rw [CrcMatches] at hcrc
        simp [hcrc] at hstatus
      · simp only [cursorAfter, hready', hready'', if_true, hcursor, hframe.header]
        simp [Cursor.follow]
      · simp only [bodyStatus]
        split_ifs <;> simp

end Feed

end Watch
