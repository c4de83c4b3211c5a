import TeleBezel.Image.Agree

/-!
# The decoder after a stream

What the watch holds after bytes of which none was refused depends on the bytes alone: not on how
they were cut, and, as far as the image is filled, not on what stood in the buffer before.
-/

open List

namespace Watch

open Lz Tbi

structure Decoding (buffer : ℕ → List UInt8) (stream : List UInt8) (d : TbImageDecoder) : Prop where
  taken : TakenAll buffer stream d
  status : d.headerReady = true → bodyStatus d ≠ .bad

variable {buffer : ℕ → List UInt8} {stream : List UInt8} {d : TbImageDecoder}

theorem collecting_nil : Collecting [] := ⟨by decide, fun hlen => absurd hlen (by decide)⟩

theorem decoding_tbImageReset (buffer : ℕ → List UInt8) : Decoding buffer [] tbImageReset :=
  ⟨Or.inl ⟨collecting_nil, rfl⟩, fun h => absurd h (by decide)⟩

variable {head : List UInt8}

theorem bodyStatus_installed (hhead : CompleteHead head) :
    bodyStatus (installed head buffer) = .more := by
  have hroom : (installed head buffer).filled < (installed head buffer).size := hhead.size_pos
  rw [bodyStatus, if_pos (Or.inl hroom)]

theorem decoding_installed (hhead : CompleteHead head) :
    Decoding buffer head (installed head buffer) := by
  refine ⟨Or.inr ⟨head, [], (append_nil head).symm, hhead, rfl⟩, fun _ => ?_⟩
  rw [bodyStatus_installed hhead]
  decide

def bufferOf (pixels : List UInt8) (n : ℕ) : List UInt8 :=
  if n = pixels.length then pixels else List.replicate n 0

theorem length_bufferOf (pixels : List UInt8) (n : ℕ) : (bufferOf pixels n).length = n := by
  unfold bufferOf
  split_ifs with hn
  · exact hn.symm
  · exact length_replicate

theorem decoding_bufferOf {pixels : List UInt8} (hhead : CompleteHead head)
    (hlen : pixels.length = tbImageSize (readHeader head)) :
    Decoding (bufferOf pixels) head { started head none with pixels := some pixels } := by
  have hinstalled : installed head (bufferOf pixels) =
      { started head none with pixels := some pixels } := by
    simp [installed, started, bufferOf, hlen.symm]
  rw [← hinstalled]
  exact decoding_installed hhead

/-- **One call**: the bytes are refused, taken whole, or a first part of them completes the header. -/
theorem Decoding.feed (h : Decoding buffer stream d) (data : List UInt8) :
    (tbImageFeed d data).status = .bad ∨
      (((tbImageFeed d data).status = .more ∨ (tbImageFeed d data).status = .done) ∧
        (tbImageFeed d data).used = data.length ∧
        Decoding buffer (stream ++ data) (tbImageFeed d data).decoder) ∨
      ∃ q rest, data = q ++ rest ∧ CompleteHead (stream ++ q) ∧
        tbImageFeed d data = ⟨.headerReady, started (stream ++ q) none, q.length⟩ := by
  rcases h.taken with ⟨hcollect, rfl⟩ | ⟨head, q, rfl, hhead, hfold⟩
  · have hfeed : tbImageFeed { head := stream } data = feedHead { head := stream } data 0 := rfl
    rw [hfeed]
    rcases feedHead_cases data 0 hcollect with hbad | ⟨hmore, hnext⟩ | ⟨q, rest, rfl, hhead, hready⟩
    · exact Or.inl hbad
    · refine Or.inr (Or.inl ?_)
      rw [hmore, Nat.zero_add]
      exact ⟨Or.inl rfl, rfl, Or.inl ⟨hnext, rfl⟩, fun hready => absurd hready (by simp)⟩
    · refine Or.inr (Or.inr ⟨q, rest, rfl, hhead, ?_⟩)
      rw [hready, Nat.zero_add]
  · rcases feed_body_cases hfold data with hbad | ⟨d', hfed, hfold'⟩
    · exact Or.inl hbad
    by_cases hstatus : bodyStatus d' = .bad
    · left
      rw [hfed]
      exact hstatus
    · refine Or.inr (Or.inl ?_)
      rw [hfed, append_assoc]
      refine ⟨?_, rfl, Or.inr ⟨head, q ++ data, rfl, hhead, hfold'⟩, fun _ => hstatus⟩
      have hready := bodyStatus_ne_headerReady d'
      revert hstatus hready
      cases bodyStatus d' <;> simp

section Whole

theorem feedHead_collecting (data : List UInt8) :
    ∀ {p : List UInt8} (offset : ℕ), Collecting (p ++ data) →
      feedHead { head := p } data offset = ⟨.more, { head := p ++ data }, offset + data.length⟩ := by
  induction data with
  | nil =>
    intro p offset _
    simp [feedHead]
  | cons byte data ih =>
    intro p offset h
    rw [append_cons] at h ⊢
    have hpart : p ++ [byte] <+: p ++ [byte] ++ data := prefix_append _ _
    have hlen : (p ++ [byte]).length ≤ (p ++ [byte] ++ data).length := hpart.length_le
    have hvalid : ¬ ((p ++ [byte]).length = Tbi.headerSize ∧ headerValid (p ++ [byte]) = false) := by
      rintro ⟨hsize, hinvalid⟩
      rw [headerValid_of_leading hpart hsize.ge, h.valid (by omega)] at hinvalid
      cases hinvalid
    have hcomplete : ¬ (Tbi.headerSize ≤ (p ++ [byte]).length ∧
        (p ++ [byte]).length = Tbi.headerSize + ((p ++ [byte]).getD 5 0).toNat) := by
      rintro ⟨hsize, hcolors⟩
      refine h.incomplete ⟨by omega, ?_⟩
      rw [← getD_of_leading hpart (lt_of_lt_of_le (by decide) hsize)]
      omega
    rw [feedHead]
    simp only [if_neg hvalid, if_neg hcomplete]
    rw [ih (offset + 1) h, length_cons, Nat.add_right_comm, Nat.add_assoc]

/-- **The decoder is the one of the whole stream**, fed as one chunk to a decoder that was reset. -/
theorem Decoding.feedChunk (h : Decoding buffer stream d) :
    .bad ∉ (Watch.feedChunk buffer tbImageReset stream).1 ∧
      (Watch.feedChunk buffer tbImageReset stream).2 = d := by
  rcases h.taken with ⟨hcollect, rfl⟩ | ⟨head, q, rfl, hhead, hfold⟩
  · have hfeed : tbImageFeed tbImageReset stream = ⟨.more, { head := stream }, 0 + stream.length⟩ :=
      feedHead_collecting (p := []) stream 0 hcollect
    simp [Watch.feedChunk, hfeed]
  · have hne : head ≠ [] := by
      rintro rfl
      exact absurd hhead.length (by decide)
    have hfeed : tbImageFeed tbImageReset (head ++ q) =
        ⟨.headerReady, started head none, 0 + head.length⟩ :=
      feedHead_ready (p := []) hhead rfl hne q 0
    have hstatus : bodyStatus d ≠ .bad := h.status (sameFrame_foldlM hfold).headerReady
    have hchunk : Watch.feedChunk buffer tbImageReset (head ++ q) =
        if q = [] then ([.headerReady], installed head buffer)
        else ([.headerReady, (tbImageFeed (installed head buffer) q).status],
          (tbImageFeed (installed head buffer) q).decoder) := by
      rw [Watch.feedChunk, hfeed]
      simp only [if_true, Nat.zero_add, drop_left]
      rfl
    rw [hchunk]
    rcases eq_or_ne q [] with rfl | hqne
    · obtain rfl := Option.some.inj hfold
      simp
    · have hpixels : (installed head buffer).pixels ≠ none := by simp [installed, started]
      rw [if_neg hqne, tbImageFeed_body rfl hpixels hfold]
      exact ⟨by simp [hstatus.symm], rfl⟩

theorem Decoding.of_append {more : List UInt8} (h : Decoding buffer (stream ++ more) d)
    (hmore : more ≠ []) : ∃ d', Decoding buffer stream d' := by
  rcases h.taken with ⟨hcollect, rfl⟩ | ⟨head, q, hsplit, hhead, hfold⟩
  · refine ⟨{ head := stream }, Or.inl ⟨⟨fun hcomplete => ?_, fun hlen => ?_⟩, rfl⟩,
      fun hready => absurd hready (by simp)⟩
    · refine hcollect.incomplete ⟨?_, ?_⟩
      · rw [length_append]
        exact Nat.le_add_right_of_le hcomplete.1
      · rw [← getD_of_leading (prefix_append stream more)
          (lt_of_lt_of_le (by decide) hcomplete.1), length_append]
        exact Nat.le_add_right_of_le hcomplete.2
    · rw [headerValid_of_leading (prefix_append stream more) hlen]
      refine hcollect.valid ?_
      rw [length_append]
      exact Nat.le_add_right_of_le hlen
  · rcases Nat.lt_or_ge stream.length head.length with hlt | hge
    · have hpart : stream <+: head :=
        prefix_of_prefix_length_le (prefix_append stream more) ⟨q, hsplit.symm⟩ hlt.le
      refine ⟨{ head := stream }, Or.inl ⟨⟨fun hcomplete => ?_, fun hlen => ?_⟩, rfl⟩,
        fun hready => absurd hready (by simp)⟩
      · have hfive : stream.getD 5 0 = head.getD 5 0 :=
          getD_of_leading hpart (lt_of_lt_of_le (by decide) hcomplete.1)
        have hle := hcomplete.2
        rw [hfive, ← hhead.length] at hle
        omega
      · rw [headerValid_of_leading hpart hlen]
        exact hhead.valid
    · obtain ⟨r, rfl⟩ : ∃ r, stream = head ++ r := by
        obtain ⟨r, hr⟩ := prefix_of_prefix_length_le ⟨q, hsplit.symm⟩
          (prefix_append stream more) hge
        exact ⟨r, hr.symm⟩
      obtain rfl : r ++ more = q := by
        rw [append_assoc] at hsplit
        exact append_cancel_left hsplit
      rw [foldlM_append] at hfold
      obtain ⟨d', hfirst, hrest⟩ := Option.bind_eq_some_iff.mp hfold
      refine ⟨d', Or.inr ⟨head, r, rfl, hhead, hfirst⟩, fun _ => ?_⟩
      cases more with
      | nil => exact absurd rfl hmore
      | cons byte more =>
        rw [foldlM_cons] at hrest
        obtain ⟨d₁, hbyte, -⟩ := Option.bind_eq_some_iff.mp hrest
        rw [bodyStatus_of_bodyByte hbyte]
        decide

end Whole

section Length

def begun : TbImageOp → ℕ
  | .none => 0
  | .literal => 1
  | .repeat => 1
  | .distanceLow => 1
  | .distanceHigh => 2

def Cursor.left (c : Cursor) : ℕ := 3 * c.room + 3 - begun c.op

def Cursor.Wants (c : Cursor) : Prop :=
  c.op = .repeat ∨ c.op = .distanceLow ∨ c.op = .distanceHigh → 0 < c.remaining

theorem Cursor.left_next {c : Cursor} (hwants : c.Wants) (hroom : c.op ≠ .none → 0 < c.room)
    (byte : UInt8) : (c.next byte).left + 1 ≤ c.left ∧ (c.next byte).Wants := by
  obtain ⟨op, remaining, room⟩ := c
  cases op with
  | none =>
    unfold Cursor.next
    split_ifs <;> simp [Cursor.left, Cursor.Wants, begun]
  | literal =>
    have hpos : 0 < room := hroom (by simp)
    by_cases hlast : remaining - 1 = 0
    · simp [Cursor.next, Cursor.left, Cursor.Wants, begun, hlast]
      omega
    · simp [Cursor.next, Cursor.left, Cursor.Wants, begun, hlast]
      omega
  | «repeat» =>
    have hpos : 0 < room := hroom (by simp)
    have hsymbols : 0 < remaining := hwants (Or.inl rfl)
    simp [Cursor.next, Cursor.left, Cursor.Wants, begun]
    omega
  | distanceLow =>
    have hpos : 0 < room := hroom (by simp)
    have hsymbols : 0 < remaining := hwants (Or.inr (Or.inl rfl))
    simp [Cursor.next, Cursor.left, Cursor.Wants, begun, hsymbols]
  | distanceHigh =>
    have hpos : 0 < room := hroom (by simp)
    have hsymbols : 0 < remaining := hwants (Or.inr (Or.inr rfl))
    simp [Cursor.next, Cursor.left, Cursor.Wants, begun]
    omega

theorem room_of_bodyByte_op {d' : TbImageDecoder} {byte : UInt8} (hwithin : InBuffer d)
    (h : bodyByte d byte = some d') (hop : d.op ≠ .none) : 0 < (cursorOf d).room := by
  have hle := hwithin.filled_le
  by_contra hfull
  simp only [cursorOf] at hfull
  rcases hwithin.literal_of_full (by omega) with hnone | hliteral
  · exact hop hnone
  · have hemit : emit d byte = (false, d) := by
      rw [emit, if_pos (by omega)]
    rw [bodyByte, if_neg (by simp [hop]), step, hliteral] at h
    simp only [hemit, taken] at h
    cases h

theorem length_add_left_le (data : List UInt8) :
    ∀ {d d' : TbImageDecoder}, InBuffer d → (cursorOf d).Wants → data.foldlM bodyByte d = some d' →
      data.length + (cursorOf d').left ≤ (cursorOf d).left := by
  induction data with
  | nil =>
    intro d d' _ _ h
    obtain rfl := Option.some.inj h
    simp
  | cons byte data ih =>
    intro d d' hwithin hwants h
    rw [foldlM_cons] at h
    obtain ⟨d₁, hbyte, hrest⟩ := Option.bind_eq_some_iff.mp h
    obtain ⟨hwithin₁, hcursor⟩ := bodyByte_sound hwithin hbyte
    obtain ⟨hleft, hwants₁⟩ := Cursor.left_next hwants (room_of_bodyByte_op hwithin hbyte) byte
    rw [← hcursor] at hleft hwants₁
    have hrest := ih hwithin₁ hwants₁ hrest
    rw [length_cons]
    omega

theorem Decoding.length_lt (h : Decoding buffer stream d) : stream.length < 2 ^ 18 := by
  have hsize : Tbi.headerSize = 22 := rfl
  have hcolors : ∀ head : List UInt8, (head.getD 5 0).toNat < 256 := fun head => UInt8.toNat_lt _
  rcases h.taken with ⟨hcollect, -⟩ | ⟨head, q, rfl, hhead, hfold⟩
  · have hincomplete := hcollect.incomplete
    have := hcolors stream
    rw [HeadComplete] at hincomplete
    omega
  · have hwithin : InBuffer (installed head buffer) :=
      ⟨Nat.zero_le _, fun hfull => absurd hfull hhead.size_pos.ne⟩
    have hwants : (cursorOf (installed head buffer)).Wants := by
      rintro (hop | hop | hop) <;> cases hop
    have hbody := length_add_left_le q hwithin hwants hfold
    have hleft : (cursorOf (installed head buffer)).left =
        3 * tbImageSize (readHeader head) + 3 := rfl
    have := hcolors head
    have := hhead.size_le
    rw [length_append, hhead.length]
    omega

end Length

section Same

structure SameText (d d' : TbImageDecoder) : Prop where
  header : d'.header = d.header
  head : d'.head = d.head
  ready : d'.headerReady = d.headerReady
  size : d'.size = d.size
  filled : d'.filled = d.filled
  op : d'.op = d.op
  remaining : d'.remaining = d.remaining
  distance : d'.distance = d.distance
  pixels : ∃ pixels pixels', d.pixels = some pixels ∧ d'.pixels = some pixels' ∧
    pixels.length = d.size ∧ pixels'.length = d.size ∧
    pixels.take d.filled = pixels'.take d.filled

variable {d₁ d₂ : TbImageDecoder}

theorem SameText.emit (h : SameText d₁ d₂) {d₁' : TbImageDecoder} {value : UInt8}
    (hemit : Watch.emit d₁ value = (true, d₁')) :
    ∃ d₂', Watch.emit d₂ value = (true, d₂') ∧ SameText d₁' d₂' := by
  unfold Watch.emit at hemit
  split_ifs at hemit with hfull
  · cases hemit
  obtain ⟨-, rfl⟩ := Prod.mk.inj hemit
  obtain ⟨pixels, pixels', hpixels, hpixels', hlen, hlen', htake⟩ := h.pixels
  have hroom : ¬ d₂.size ≤ d₂.filled := by
    rw [h.size, h.filled]
    exact hfull
  refine ⟨_, by rw [Watch.emit, if_neg hroom], ?_⟩
  refine ⟨h.header, h.head, h.ready, h.size, ?_, h.op, h.remaining, h.distance, ?_⟩
  · simp [h.filled]
  · refine ⟨pixels.set d₁.filled value, pixels'.set d₁.filled value, by simp [hpixels],
      by simp [hpixels', h.filled], by simp [hlen], by simp [hlen'], ?_⟩
    have hlt : d₁.filled < (pixels.set d₁.filled value).length := by
      rw [length_set]
      omega
    have hlt' : d₁.filled < (pixels'.set d₁.filled value).length := by
      rw [length_set]
      omega
    simp only
    rw [take_add_one, take_add_one, take_set_of_le (Nat.le_refl _),
      take_set_of_le (Nat.le_refl _), htake, List.getElem?_eq_getElem hlt,
      List.getElem?_eq_getElem hlt']
    simp

theorem SameText.emitLoop {source : TbImageDecoder → UInt8} {k : ℕ}
    (hsource : ∀ {d d'}, SameText d d' → k ≤ d.filled → source d' = source d) (n : ℕ) :
    ∀ {d₁ d₂ d₁' : TbImageDecoder}, SameText d₁ d₂ → k ≤ d₁.filled →
      Watch.emitLoop source n d₁ = (true, d₁') →
      ∃ d₂', Watch.emitLoop source n d₂ = (true, d₂') ∧ SameText d₁' d₂' := by
  induction n with
  | zero =>
    intro d₁ d₂ d₁' h _ hloop
    obtain ⟨-, rfl⟩ := Prod.mk.inj hloop
    exact ⟨d₂, rfl, h⟩
  | succ n ih =>
    intro d₁ d₂ d₁' h hk hloop
    rw [Watch.emitLoop] at hloop
    rcases hemit : Watch.emit d₁ (source d₁) with ⟨_ | _, e₁⟩
    · rw [hemit] at hloop
      cases hloop
    rw [hemit] at hloop
    obtain ⟨-, hfilled, -⟩ := emit_eq_true hemit
    obtain ⟨e₂, hemit₂, he⟩ := h.emit hemit
    have hnext : SameText { e₁ with remaining := n } { e₂ with remaining := n } :=
      ⟨he.header, he.head, he.ready, he.size, he.filled, he.op, rfl, he.distance, he.pixels⟩
    obtain ⟨d₂', hloop₂, hsame⟩ := ih hnext (by simp only [hfilled]; omega) hloop
    refine ⟨d₂', ?_, hsame⟩
    rw [Watch.emitLoop, hsource h hk, hemit₂]
    exact hloop₂

theorem SameText.behind {distance : ℕ} (h : SameText d₁ d₂) (hpos : 0 < distance)
    (hle : distance ≤ d₁.filled) : Watch.behind distance d₂ = Watch.behind distance d₁ := by
  obtain ⟨pixels, pixels', hpixels, hpixels', -, -, htake⟩ := h.pixels
  have hget := congrArg (fun l => l[d₁.filled - distance]?) htake
  simp only [List.getElem?_take_of_lt (show d₁.filled - distance < d₁.filled by omega)] at hget
  rw [Watch.behind, Watch.behind, hpixels, hpixels', h.filled, Option.getD_some, Option.getD_some,
    List.getD, List.getD, hget]

theorem SameText.bodyByte (h : SameText d₁ d₂) {d₁' : TbImageDecoder} {byte : UInt8}
    (hbyte : Watch.bodyByte d₁ byte = some d₁') :
    ∃ d₂', Watch.bodyByte d₂ byte = some d₂' ∧ SameText d₁' d₂' := by
  unfold Watch.bodyByte at hbyte ⊢
  rw [h.size, h.filled, h.op]
  split_ifs at hbyte ⊢ with hfull
  unfold step at hbyte ⊢
  rw [h.op]
  cases hop : d₁.op with
  | none =>
    simp only [hop] at hbyte ⊢
    split_ifs at hbyte ⊢ <;>
    · obtain rfl := Option.some.inj hbyte
      exact ⟨_, rfl, h.header, h.head, h.ready, h.size, h.filled, rfl, rfl, h.distance, h.pixels⟩
  | literal =>
    simp only [hop] at hbyte ⊢
    rcases hemit : Watch.emit d₁ byte with ⟨_ | _, e₁⟩
    · rw [hemit] at hbyte
      cases hbyte
    obtain ⟨e₂, hemit₂, he⟩ := h.emit hemit
    rw [hemit] at hbyte
    rw [hemit₂]
    simp only [taken, he.remaining] at hbyte ⊢
    obtain rfl := Option.some.inj hbyte
    refine ⟨_, rfl, ?_⟩
    split_ifs
    · exact ⟨he.header, he.head, he.ready, he.size, he.filled, rfl, rfl, he.distance, he.pixels⟩
    · exact ⟨he.header, he.head, he.ready, he.size, he.filled, he.op, rfl, he.distance, he.pixels⟩
  | «repeat» =>
    simp only [hop, h.remaining] at hbyte ⊢
    rcases hloop : Watch.emitLoop (fun _ => byte) d₁.remaining d₁ with ⟨_ | _, e₁⟩
    · rw [hloop] at hbyte
      cases hbyte
    obtain ⟨e₂, hloop₂, he⟩ := SameText.emitLoop (k := 0) (fun _ _ => rfl) d₁.remaining h
      (Nat.zero_le _) hloop
    rw [hloop] at hbyte
    rw [hloop₂]
    obtain rfl := Option.some.inj hbyte
    exact ⟨_, rfl, he.header, he.head, he.ready, he.size, he.filled, rfl, he.remaining, he.distance,
      he.pixels⟩
  | distanceLow =>
    simp only [hop] at hbyte ⊢
    obtain rfl := Option.some.inj hbyte
    exact ⟨_, rfl, h.header, h.head, h.ready, h.size, h.filled, rfl, h.remaining, rfl, h.pixels⟩
  | distanceHigh =>
    simp only [hop, h.distance, h.filled, h.remaining] at hbyte ⊢
    split_ifs at hbyte ⊢ with hbounds
    · cases hbyte
    rw [not_or] at hbounds
    generalize hdistance : d₁.distance ||| (byte.toNat <<< 8) = distance at *
    rcases hloop : Watch.emitLoop (Watch.behind distance) d₁.remaining
      { d₁ with op := .distanceHigh, distance := distance } with ⟨_ | _, e₁⟩
    · rw [hloop] at hbyte
      cases hbyte
    have hset : SameText { d₁ with op := .distanceHigh, distance := distance }
        { d₂ with
          filled := d₁.filled
          op := .distanceHigh
          remaining := d₁.remaining
          distance := distance } :=
      ⟨h.header, h.head, h.ready, h.size, rfl, rfl, rfl, rfl, h.pixels⟩
    have hsource : ∀ {d d' : TbImageDecoder}, SameText d d' → distance ≤ d.filled →
        Watch.behind distance d' = Watch.behind distance d :=
      fun hsame hle => hsame.behind (Nat.pos_of_ne_zero hbounds.1) hle
    obtain ⟨e₂, hloop₂, he⟩ := SameText.emitLoop hsource d₁.remaining hset
      (Nat.le_of_not_lt hbounds.2) hloop
    rw [hloop] at hbyte
    rw [hloop₂]
    obtain rfl := Option.some.inj hbyte
    exact ⟨_, rfl, he.header, he.head, he.ready, he.size, he.filled, rfl, he.remaining, he.distance,
      he.pixels⟩

theorem SameText.foldlM (data : List UInt8) :
    ∀ {d₁ d₂ d₁' : TbImageDecoder}, SameText d₁ d₂ → data.foldlM Watch.bodyByte d₁ = some d₁' →
      ∃ d₂', data.foldlM Watch.bodyByte d₂ = some d₂' ∧ SameText d₁' d₂' := by
  induction data with
  | nil =>
    intro d₁ d₂ d₁' h hfold
    obtain rfl := Option.some.inj hfold
    exact ⟨d₂, rfl, h⟩
  | cons byte data ih =>
    intro d₁ d₂ d₁' h hfold
    rw [foldlM_cons] at hfold
    obtain ⟨e₁, hbyte, hrest⟩ := Option.bind_eq_some_iff.mp hfold
    obtain ⟨e₂, hbyte₂, he⟩ := h.bodyByte hbyte
    obtain ⟨d₂', hrest₂, hsame⟩ := ih he hrest
    refine ⟨d₂', ?_, hsame⟩
    rw [foldlM_cons, hbyte₂]
    exact hrest₂

theorem SameText.pixels_eq (h : SameText d₁ d₂) (hfull : d₁.size ≤ d₁.filled) :
    d₂.pixels = d₁.pixels := by
  obtain ⟨pixels, pixels', hpixels, hpixels', hlen, hlen', htake⟩ := h.pixels
  rw [take_of_length_le (by omega), take_of_length_le (by omega)] at htake
  rw [hpixels, hpixels', htake]

theorem SameText.bodyStatus_eq (h : SameText d₁ d₂) : bodyStatus d₂ = bodyStatus d₁ := by
  by_cases hmore : d₁.filled < d₁.size ∨ d₁.op ≠ .none
  · rw [bodyStatus, bodyStatus, h.filled, h.size, h.op, if_pos hmore, if_pos hmore]
  · have hpixels := h.pixels_eq (by omega)
    rw [bodyStatus, bodyStatus, h.filled, h.size, h.op, h.header, hpixels]

/-- **Two buffers**: a stream that the one takes, the other takes, and what is filled is the same. -/
theorem Decoding.sameText (h : Decoding buffer stream d) (hbuffer : ∀ n, (buffer n).length = n)
    {buffer' : ℕ → List UInt8} (hbuffer' : ∀ n, (buffer' n).length = n) :
    ∃ d', Decoding buffer' stream d' ∧ (d' = d ∨ SameText d d') := by
  rcases h.taken with ⟨hcollect, rfl⟩ | ⟨head, q, rfl, hhead, hfold⟩
  · exact ⟨_, ⟨Or.inl ⟨hcollect, rfl⟩, h.status⟩, Or.inl rfl⟩
  · have hstart : SameText (installed head buffer) (installed head buffer') :=
      ⟨rfl, rfl, rfl, rfl, rfl, rfl, rfl, rfl, _, _, rfl, rfl, hbuffer _, hbuffer' _, rfl⟩
    obtain ⟨d', hfold', hsame⟩ := hstart.foldlM q hfold
    refine ⟨d', ⟨Or.inr ⟨head, q, rfl, hhead, hfold'⟩, fun hready => ?_⟩, Or.inr hsame⟩
    rw [hsame.bodyStatus_eq]
    exact h.status (hsame.ready.symm.trans hready)

theorem Decoding.unique {d' : TbImageDecoder} (h : Decoding buffer stream d)
    (h' : Decoding buffer stream d') : d' = d :=
  h'.feedChunk.2.symm.trans h.feedChunk.2

end Same

section Again

theorem CompleteHead.eq_of_leading {head' : List UInt8} (h : CompleteHead head)
    (h' : CompleteHead head') (hleading : head <+: stream) (hleading' : head' <+: stream) :
    head' = head := by
  have hfive : head.getD 5 0 = head'.getD 5 0 := by
    rw [getD_of_leading hleading (by rw [h.length]; exact Nat.lt_add_right _ (by decide)),
      getD_of_leading hleading' (by rw [h'.length]; exact Nat.lt_add_right _ (by decide))]
  have hlen : head'.length = head.length := by rw [h.length, h'.length, hfive]
  have hle := prefix_of_prefix_length_le hleading' hleading hlen.le
  exact hle.eq_of_length hlen

theorem Collecting.not_leading (h : Collecting stream) (hhead : CompleteHead head) :
    ¬ head <+: stream := by
  intro hleading
  refine h.incomplete ⟨?_, ?_⟩
  · have := hleading.length_le
    rw [hhead.length] at this
    omega
  · have hfive : head.getD 5 0 = stream.getD 5 0 :=
      getD_of_leading hleading (by rw [hhead.length]; exact Nat.lt_add_right _ (by decide))
    rw [← hfive, ← hhead.length]
    exact hleading.length_le

/-- **Bytes of a stream that is taken are taken again**: a call with more of it is not refused. -/
theorem Decoding.feed_ne_bad (h : Decoding buffer stream d) {data : List UInt8} {d' : TbImageDecoder}
    (hwhole : Decoding buffer (stream ++ data) d') : (tbImageFeed d data).status ≠ .bad := by
  rcases h.taken with ⟨hcollect, rfl⟩ | ⟨head, q, rfl, hhead, hfold⟩
  · have hfeed : tbImageFeed { head := stream } data = feedHead { head := stream } data 0 := rfl
    rw [hfeed]
    rcases hwhole.taken with ⟨hcollect', -⟩ | ⟨head, q, hsplit, hhead, -⟩
    · rw [feedHead_collecting data 0 hcollect']
      simp
    · have hnot := hcollect.not_leading hhead
      rcases append_eq_append_iff.mp hsplit with ⟨r, hr, hdata⟩ | ⟨r, hr, -⟩
      · have hrne : r ≠ [] := by
          rintro rfl
          rw [append_nil] at hr
          exact hnot (hr ▸ prefix_rfl)
        rw [hdata, feedHead_ready hhead hr.symm hrne q 0]
        simp
      · exact absurd ⟨r, hr.symm⟩ hnot
  · rcases hwhole.taken with ⟨hcollect', -⟩ | ⟨head', q', hsplit, hhead', hfold'⟩
    · refine absurd ?_ (hcollect'.not_leading hhead)
      rw [append_assoc]
      exact prefix_append _ _
    · have hleading : head <+: head ++ q ++ data := by
        rw [append_assoc]
        exact prefix_append _ _
      obtain rfl := hhead.eq_of_leading hhead' hleading ⟨q', hsplit.symm⟩
      rw [append_assoc] at hsplit
      rw [← append_cancel_left hsplit, foldlM_append, hfold] at hfold'
      have hframe := sameFrame_foldlM hfold
      have hpixels : d.pixels ≠ none := by
        intro hnone
        have hmap := hframe.pixels
        rw [hnone] at hmap
        cases hmap
      rw [tbImageFeed_body hframe.headerReady hpixels hfold']
      exact hwhole.status ((sameFrame_foldlM hfold').headerReady.trans hframe.headerReady)

theorem Decoding.header_feed (h : Decoding buffer stream d) {data : List UInt8}
    (hstatus : (tbImageFeed d data).status = .more ∨ (tbImageFeed d data).status = .done)
    (hready : (tbImageFeed d data).decoder.headerReady = true) :
    d.headerReady = true ∧ (tbImageFeed d data).decoder.header = d.header := by
  rcases h.taken with ⟨hcollect, rfl⟩ | ⟨head, q, rfl, hhead, hfold⟩
  · have hfeed : tbImageFeed { head := stream } data = feedHead { head := stream } data 0 := rfl
    rw [hfeed] at hstatus hready
    rcases feedHead_cases data 0 hcollect with hbad | ⟨hmore, -⟩ | ⟨q, rest, -, -, hcomplete⟩
    · rw [hbad] at hstatus
      rcases hstatus with hstatus | hstatus <;> cases hstatus
    · rw [hmore] at hready
      cases hready
    · rw [hcomplete] at hstatus
      rcases hstatus with hstatus | hstatus <;> cases hstatus
  · have hframe := sameFrame_foldlM hfold
    rcases feed_body_cases hfold data with hbad | ⟨d', hfed, hfold'⟩
    · rw [hbad] at hstatus
      rcases hstatus with hstatus | hstatus <;> cases hstatus
    · rw [hfed]
      exact ⟨hframe.headerReady, (sameFrame_foldlM hfold').header.trans hframe.header.symm⟩

theorem Decoding.exists_head (h : Decoding buffer stream d) (hready : d.headerReady = true) :
    ∃ head, head <+: stream ∧ CompleteHead head ∧ d.header = readHeader head ∧
      d.size = tbImageSize (readHeader head) := by
  rcases h.taken with ⟨-, rfl⟩ | ⟨head, q, rfl, hhead, hfold⟩
  · cases hready
  · have hframe := sameFrame_foldlM hfold
    exact ⟨head, prefix_append _ _, hhead, hframe.header, hframe.size⟩

end Again

end Watch
