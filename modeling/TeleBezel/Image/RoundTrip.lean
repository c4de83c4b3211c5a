import TeleBezel.Image.Encode
import TeleBezel.Image.Refine

/-!
# From the renderer to the watch and back

An encoded image, cut into chunks in any way and fed to the decoder of the watch, comes out as
it was packed: the header, the palette, the buffer and every visible pixel.
-/

open List

namespace Watch

open Word Lz Tbi

section Chunks

/-- One chunk. Once the header is ready a buffer of the size it tells is installed and the rest
of the chunk, if any, is fed again. The statuses of the calls are kept. -/
def feedChunk (buffer : ℕ → List UInt8) (d : TbImageDecoder) (chunk : List UInt8) :
    List TbImageStatus × TbImageDecoder :=
  let fed := tbImageFeed d chunk
  if fed.status = .headerReady then
    let d := { fed.decoder with pixels := some (buffer fed.decoder.size) }
    let rest := chunk.drop fed.used
    if rest = [] then ([.headerReady], d)
    else
      let again := tbImageFeed d rest
      ([.headerReady, again.status], again.decoder)
  else ([fed.status], fed.decoder)

def feedChunks (buffer : ℕ → List UInt8) :
    TbImageDecoder → List (List UInt8) → List TbImageStatus × TbImageDecoder
  | d, [] => ([], d)
  | d, chunk :: chunks =>
    let fed := feedChunk buffer d chunk
    let rest := feedChunks buffer fed.2 chunks
    (fed.1 ++ rest.1, rest.2)

variable {head body : List UInt8} {buffer : ℕ → List UInt8} {last : TbImageDecoder}

def installed (head : List UInt8) (buffer : ℕ → List UInt8) : TbImageDecoder :=
  started head (some (buffer (tbImageSize (readHeader head))))

/-- The decoder after a prefix of the stream: it collects the header, or it has it and has taken
a part of the body. -/
def After (head : List UInt8) (buffer : ℕ → List UInt8) (p : List UInt8) (d : TbImageDecoder) :
    Prop :=
  (p.length < head.length ∧ d = { head := p }) ∨
    ∃ q, p = head ++ q ∧ q.foldlM bodyByte (installed head buffer) = some d

variable {d : TbImageDecoder}

theorem feed_after_head (hbody : body.foldlM bodyByte (installed head buffer) = some last)
    {q chunk rest : List UInt8} (hq : q ++ chunk ++ rest = body)
    (hd : q.foldlM bodyByte (installed head buffer) = some d) :
    ∃ d', tbImageFeed d chunk = ⟨if rest = [] then bodyStatus last else .more, d', chunk.length⟩ ∧
      (q ++ chunk).foldlM bodyByte (installed head buffer) = some d' := by
  rw [← hq, foldlM_append, foldlM_append, hd] at hbody
  obtain ⟨d', hchunk, hrest⟩ := Option.bind_eq_some_iff.mp hbody
  have hframe := sameFrame_foldlM hd
  have hpixels : d.pixels ≠ none := by
    intro hnone
    have := hframe.pixels
    rw [hnone] at this
    exact absurd this (by simp [installed, started])
  refine ⟨d', ?_, by rw [foldlM_append, hd]; exact hchunk⟩
  rw [tbImageFeed_body hframe.headerReady hpixels hchunk]
  congr 1
  cases rest with
  | nil =>
    obtain rfl := Option.some.inj hrest
    rfl
  | cons byte rest =>
    rw [foldlM_cons] at hrest
    obtain ⟨d'', hbyte, -⟩ := Option.bind_eq_some_iff.mp hrest
    exact bodyStatus_of_bodyByte hbyte

/-- A stream that decodes as a whole: the header, then a body that fills the buffer and has the
checksum of the header. -/
structure Decodes (head body : List UInt8) (buffer : ℕ → List UInt8) (last : TbImageDecoder) :
    Prop where
  complete : CompleteHead head
  body_ne : body ≠ []
  fold : body.foldlM bodyByte (installed head buffer) = some last
  done : bodyStatus last = .done

theorem feedChunk_spec (h : Decodes head body buffer last) {p chunk rest : List UInt8}
    (hp : p ++ chunk ++ rest = head ++ body) (hd : After head buffer p d) :
    .bad ∉ (feedChunk buffer d chunk).1 ∧
      (rest = [] → (feedChunk buffer d chunk).1.getLast? = some .done) ∧
      After head buffer (p ++ chunk) (feedChunk buffer d chunk).2 := by
  obtain ⟨hhead, hbody, hfold, hdone⟩ := h
  rcases hd with ⟨hlt, rfl⟩ | ⟨q, rfl, hq⟩
  · -- the header is not complete yet
    have hfeed : tbImageFeed { head := p } chunk = feedHead { head := p } chunk 0 := rfl
    have hlenbody := length_pos_iff.mpr hbody
    have hlen := congrArg List.length hp
    rcases Nat.lt_or_ge (p ++ chunk).length head.length with hmore | hcomplete
    · have hprefix : p ++ chunk <+: head :=
        prefix_of_prefix_length_le ⟨rest, hp⟩ (prefix_append _ _) hmore.le
      have hfed := hfeed.trans (feedHead_more hhead hprefix hmore 0)
      refine ⟨by simp [feedChunk, hfed], ?_, Or.inl ⟨hmore, by simp [feedChunk, hfed]⟩⟩
      rintro rfl
      simp only [length_append, length_nil] at hlen hmore
      omega
    · obtain ⟨q, hq, tail, htail⟩ : ∃ q, p ++ q = head ∧ ∃ tail, chunk = q ++ tail := by
        rw [append_assoc] at hp
        rcases append_eq_append_iff.mp hp with ⟨q, hq, hrest⟩ | ⟨q, hq, hrest⟩
        · refine ⟨q, hq.symm, ?_⟩
          rcases append_eq_append_iff.mp hrest with ⟨t, ht, -⟩ | ⟨t, ht, -⟩
          · have : t = [] := by
              rw [hq, ht] at hcomplete
              simp only [length_append] at hcomplete
              exact length_eq_zero_iff.mp (by omega)
            exact ⟨[], by rw [ht, this]; simp⟩
          · exact ⟨t, ht⟩
        · rw [hq, length_append] at hlt
          omega
      have hqne : q ≠ [] := by
        rintro rfl
        rw [← hq, append_nil] at hlt
        exact Nat.lt_irrefl _ hlt
      have hrest : tail ++ rest = body := by
        rw [htail, ← hq] at hp
        simpa using hp
      have hfed := hfeed.trans (htail ▸ feedHead_ready hhead hq hqne tail 0)
      have hdrop : chunk.drop (0 + q.length) = tail := by rw [htail]; simp
      rw [feedChunk, hfed]
      simp only [hdrop, if_true]
      rw [show ({ started head none with pixels := some (buffer (started head none).size) } :
        TbImageDecoder) = installed head buffer from rfl]
      rcases eq_or_ne tail [] with rfl | htailne
      · refine ⟨by simp, ?_, Or.inr ⟨[], by simp [htail, hq], by simp⟩⟩
        rintro rfl
        exact absurd hrest.symm hbody
      · obtain ⟨d', hagain, hd'⟩ := feed_after_head hfold
          (q := []) (d := installed head buffer) (show [] ++ tail ++ rest = body from hrest) rfl
        rw [if_neg htailne, hagain, hdone]
        refine ⟨?_, ?_, Or.inr ⟨tail, by simp [htail, ← hq], by simpa using hd'⟩⟩
        · simp only
          split_ifs <;> simp
        · intro hnil
          simp [hnil]
  · have hq' : q ++ chunk ++ rest = body := by simpa using hp
    obtain ⟨d', hfed, hd'⟩ := feed_after_head hfold hq' hq
    rw [hdone] at hfed
    have hne : (if rest = [] then TbImageStatus.done else .more) ≠ .headerReady := by
      split_ifs <;> decide
    rw [feedChunk, hfed]
    simp only [if_neg hne]
    refine ⟨?_, ?_, Or.inr ⟨q ++ chunk, by simp, hd'⟩⟩
    · split_ifs <;> simp
    · intro hnil
      simp [hnil]

theorem feedChunks_spec (h : Decodes head body buffer last) (chunks : List (List UInt8)) :
    ∀ {p d}, p ++ chunks.flatten = head ++ body → After head buffer p d →
      .bad ∉ (feedChunks buffer d chunks).1 ∧
        (chunks ≠ [] → (feedChunks buffer d chunks).1.getLast? = some .done) ∧
        After head buffer (head ++ body) (feedChunks buffer d chunks).2 := by
  induction chunks with
  | nil =>
    intro p d hp hd
    rw [flatten_nil, append_nil] at hp
    exact ⟨by simp [feedChunks], fun hne => absurd rfl hne, hp ▸ hd⟩
  | cons chunk chunks ih =>
    intro p d hp hd
    rw [flatten_cons, ← append_assoc] at hp
    obtain ⟨hbad, hlast, hafter⟩ := feedChunk_spec h hp hd
    obtain ⟨hbad', hlast', hafter'⟩ := ih hp hafter
    refine ⟨?_, fun _ => ?_, hafter'⟩
    · simp only [feedChunks, mem_append, not_or]
      exact ⟨hbad, hbad'⟩
    · simp only [feedChunks]
      rcases eq_or_ne chunks [] with rfl | hchunks
      · simpa [feedChunks] using hlast rfl
      · rw [List.getLast?_append, hlast' hchunks]
        rfl

theorem After.eq_last (h : Decodes head body buffer last)
    (hd : After head buffer (head ++ body) d) : d = last := by
  rcases hd with ⟨hlt, -⟩ | ⟨q, hq, hfold⟩
  · rw [length_append] at hlt
    omega
  · rw [← append_cancel_left hq, h.fold] at hfold
    exact (Option.some.inj hfold).symm

end Chunks

section Header

/-- The header of an image. -/
structure TbImageHeader.Describes (header : TbImageHeader) (image : Image) : Prop where
  bits : (header.bits : ℤ) = image.bits
  shape : (header.shape : ℤ) = image.shape
  colors : header.colors = image.palette.length
  width : (header.width : ℤ) = image.width
  height : (header.height : ℤ) = image.height
  canvasWidth : (header.canvasWidth : ℤ) = image.canvasWidth
  canvasHeight : (header.canvasHeight : ℤ) = image.canvasHeight
  tag : header.tag = image.tag.toNat
  palette : header.palette = image.palette

structure Renderable (image : Image) : Prop extends image.Accepted where
  shape : image.shape = 0 ∨ image.shape = 1
  canvasWidth_le : image.canvasWidth ≤ 1024
  canvasHeight_le : image.canvasHeight ≤ 1024

variable {image : Image}

theorem length_header (image : Image) : image.header.length = headerSize := rfl

theorem toNat_byteOf {x : ℤ} (h : 0 ≤ x) (h' : x < 256) : ((byteOf x).toNat : ℤ) = x := by
  obtain ⟨n, rfl⟩ := Int.eq_ofNat_of_zero_le h
  rw [byteOf_natCast, toNat_byteOf_of_lt (by omega)]

theorem little16_uint16 {x : ℤ} (h : 0 ≤ x) (h' : x < 65536) :
    ((little16 (UInt8.ofNat (uint16 x)) (UInt8.ofNat (uint16 x >>> 8)) : ℕ) : ℤ) = x := by
  rw [uint16_of_lt h h', little16_bytes16 (by omega)]
  exact Int.toNat_of_nonneg h

theorem Renderable.palette_length_lt (h : Renderable image) : image.palette.length < 256 := by
  have := h.palette_le
  have := Image.two_pow_bits_le h.bits
  have : maxColors = 16 := rfl
  omega

theorem describes_readHeader (h : Renderable image) :
    (readHeader (image.header ++ image.palette)).Describes image ∧
      (readHeader (image.header ++ image.palette)).crc = (tbImageCrc 0 image.pack).toNat := by
  have hbits := h.bits
  have hshape := h.shape
  have hw := h.width_pos
  have hh := h.height_pos
  have hcw := h.width_le
  have hch := h.height_le
  have hcw' := h.canvasWidth_le
  have hch' := h.canvasHeight_le
  have hcolors : (UInt8.ofNat image.palette.length).toNat = image.palette.length :=
    toNat_byteOf_of_lt h.palette_length_lt
  refine ⟨⟨?_, ?_, hcolors, ?_, ?_, ?_, ?_, ?_, ?_⟩, ?_⟩
  · exact toNat_byteOf (by omega) (by omega)
  · exact toNat_byteOf (by omega) (by omega)
  · exact little16_uint16 (by omega) (by omega)
  · exact little16_uint16 (by omega) (by omega)
  · exact little16_uint16 (by omega) (by omega)
  · exact little16_uint16 (by omega) (by omega)
  · exact little32_bytes32 image.tag.toNat_lt
  · change ((image.header ++ image.palette).drop headerSize).take
      (UInt8.ofNat image.palette.length).toNat = image.palette
    rw [hcolors, ← length_header image, drop_left, take_length]
  · exact little32_bytes32 (tbImageCrc 0 image.pack).toNat_lt

variable {header : TbImageHeader}

section

variable (h : Renderable image) (hd : header.Describes image)
include h hd

theorem Describes.fits :
    Fits header.bits header.width header.height header.canvasWidth header.canvasHeight := by
  rw [hd.bits, hd.width, hd.height, hd.canvasWidth, hd.canvasHeight]
  exact ⟨h.bits, h.width_pos, h.height_pos, h.width_le, h.height_le, h.canvasWidth_le,
    h.canvasHeight_le⟩

theorem Describes.row {y : ℕ}
    (hy : y < header.height) :
    (tbImageRow header y).x = (image.canvasWidth - image.width).tdiv 2 + (image.row y).x ∧
      ((tbImageRow header y).count : ℤ) = (image.row y).count ∧
      ((tbImageRow header y).bytes : ℤ) = (image.row y).bytes := by
  have hrow := tbImageRow_eq_rowAt header y hy (Describes.fits h hd)
  simp only [hd.bits, hd.shape, hd.width, hd.height, hd.canvasWidth, hd.canvasHeight] at hrow
  exact hrow

/-- The bytes that the stored rows before `y` take. -/
def rowOffset (header : TbImageHeader) (y : ℕ) : ℕ :=
  ((List.range y).map fun y => (tbImageRow header y).bytes).sum

theorem Describes.rowOffset_eq {y : ℕ}
    (hy : y ≤ header.height) :
    rowOffset header y = ((List.range y).flatMap image.packRow).length := by
  induction y with
  | zero => rfl
  | succ y ih =>
    have hrow := (Describes.row h hd (show y < header.height by omega)).2.2
    rw [range_succ, flatMap_append, length_append, ← ih (by omega)]
    simp [rowOffset, range_succ, Image.length_packRow, ← hrow]

theorem Describes.size :
    tbImageSize header = image.pack.length := by
  have hheight : image.height.toNat = header.height := by
    rw [← hd.height]
    rfl
  rw [Image.pack, hheight, ← Describes.rowOffset_eq h hd (Nat.le_refl _)]
  rfl

theorem Describes.drop_rowOffset {y : ℕ}
    (hy : y < header.height) :
    ∃ rest, image.pack.drop (rowOffset header y) = image.packRow y ++ rest := by
  have hheight : image.height.toNat = header.height := by
    rw [← hd.height]
    rfl
  obtain ⟨k, hk⟩ : ∃ k, header.height = y + (k + 1) := ⟨header.height - y - 1, by omega⟩
  refine ⟨((List.range k).map (fun i => y + (i + 1))).flatMap image.packRow, ?_⟩
  rw [Image.pack, hheight, Describes.rowOffset_eq h hd hy.le, hk, range_add,
    flatMap_append, drop_left, range_succ_eq_map]
  simp [Function.comp_def, flatMap_map]

end

theorem tbImagePixel_eq_field (hbits : header.bits ∣ 8) (row : List UInt8) {index : ℕ}
    (hindex : index * header.bits < 65536) :
    tbImagePixel header row index = UInt8.ofNat (BitPack.field header.bits row index) := by
  have hbit : uint16 ((index * header.bits : ℕ) : ℤ) = index * header.bits :=
    uint16_of_lt (by positivity) (by exact_mod_cast hindex)
  have hand : (index * header.bits) &&& 7 = index * header.bits % 8 :=
    Nat.and_two_pow_sub_one_eq_mod _ 3
  have hle : header.bits + index * header.bits % 8 ≤ 8 := by
    rcases BitPack.dvd_eight hbits with h | h | h | h <;> rw [h] <;> omega
  have hshift : byteOf (8 - header.bits - ((index * header.bits % 8 : ℕ) : ℤ)) =
      UInt8.ofNat (8 - header.bits - index * header.bits % 8) := by
    rw [← byteOf_natCast]
    congr 1
    omega
  have hmask : (1 <<< header.bits) - 1 = 2 ^ header.bits - 1 := by
    rw [Nat.shiftLeft_eq, Nat.one_mul]
  rw [tbImagePixel, BitPack.field]
  simp only [hbit, hand, hshift, hmask]
  rw [toNat_byteOf_of_lt (by omega), Nat.and_two_pow_sub_one_eq_mod]

theorem Describes.pixel (h : Renderable image) (hd : header.Describes image) {y : ℕ}
    (hy : y < header.height) {index : ℕ} (hindex : index < (tbImageRow header y).count) :
    tbImagePixel header (image.pack.drop (rowOffset header y)) index =
      image.pixel y ((image.row y).x + index) &&& image.mask := by
  obtain ⟨-, hcount, hbytes⟩ := Describes.row h hd hy
  have hbits : header.bits = image.bits.toNat := by
    have := hd.bits
    omega
  have hdvd : header.bits ∣ 8 := hbits ▸ Image.bits_dvd h.bits
  have hle : (image.row y).count ≤ image.width := by
    obtain ⟨hx, -, hspan⟩ := image.row_span y
    have := hspan (by omega)
    omega
  have hwidth := h.width_le.trans h.canvasWidth_le
  have hbit : index * header.bits < 65536 := by
    have hb : header.bits ≤ 8 := Nat.le_of_dvd (by decide) hdvd
    calc index * header.bits ≤ 1024 * 8 := Nat.mul_le_mul (by omega) hb
      _ < 65536 := by decide
  have hbyte : (index * header.bits) >>> 3 < (image.packRow y).length := by
    have hceil : ((tbImageRow header y).bytes : ℤ) =
        ((tbImageRow header y).count * header.bits + 7) / 8 := by
      rw [hbytes, hcount, hd.bits, ← Int.tdiv_eq_ediv_of_nonneg]
      · rfl
      · rw [← hcount, ← hd.bits]
        positivity
    have hmul : (index + 1) * header.bits ≤ (tbImageRow header y).count * header.bits :=
      Nat.mul_le_mul_right _ hindex
    have hpos : 0 < header.bits := Nat.pos_of_dvd_of_pos hdvd (by decide)
    rw [Image.length_packRow, ← hbytes, Nat.shiftRight_eq_div_pow]
    rw [Nat.add_mul] at hmul
    zify at hmul hpos ⊢
    omega
  obtain ⟨rest, hrest⟩ := Describes.drop_rowOffset h hd hy
  have hfield := Image.field_packRow h.toAccepted y (show index < (image.row y).count.toNat by omega)
  rw [tbImagePixel_eq_field hdvd _ hbit, hrest]
  rw [BitPack.field, getD_append _ _ _ _ hbyte, ← BitPack.field, hbits, hfield,
    UInt8.ofNat_toNat]

end Header

section RoundTrip

variable {image : Image} {buffer : ℕ → List UInt8}

section

variable (h : Renderable image) (hpos : 1 ≤ image.pack.length) (hle : image.pack.length ≤ 65535)
include h hpos hle

theorem completeHead_encode : CompleteHead (image.header ++ image.palette) := by
  obtain ⟨hd, -⟩ := describes_readHeader h
  have hsize := Describes.size h hd
  refine ⟨?_, ?_, by omega, by omega⟩
  · rw [length_append, length_header]
    exact congrArg (headerSize + ·) hd.colors.symm
  · have hbits := hd.bits
    have hcolors := hd.colors
    have hshape := hd.shape
    have hw := hd.width
    have hh := hd.height
    have hcw := hd.canvasWidth
    have hch := hd.canvasHeight
    have hpalette := h.palette_pos
    have hpalette' := h.palette_le
    have hdepth := h.bits
    have hround := h.shape
    have := h.width_pos
    have := h.height_pos
    have := h.width_le
    have := h.height_le
    simp only [readHeader] at hbits hcolors hshape hw hh hcw hch
    have hshift : 1 <<< ((image.header ++ image.palette).getD 3 0).toNat = 2 ^ image.bits.toNat := by
      rw [Nat.shiftLeft_eq, Nat.one_mul, ← hbits, Int.toNat_natCast]
    simp only [headerValid, Bool.and_eq_true, Bool.or_eq_true, beq_iff_eq, decide_eq_true_eq,
      hshift, hcolors]
    refine ⟨⟨⟨⟨⟨⟨⟨⟨⟨⟨rfl, rfl⟩, rfl⟩, by omega⟩, ?_⟩, by omega⟩, hpalette'⟩, by omega⟩, by omega⟩,
      by omega⟩, by omega⟩
    rw [UInt8.le_iff_toNat_le]
    simp only [UInt8.reduceToNat]
    omega

theorem decodes_encode (hbuffer : ∀ n, (buffer n).length = n) :
    ∃ last, Decodes (image.header ++ image.palette) (compress image.pack) buffer last ∧
      last.header = readHeader (image.header ++ image.palette) ∧
      last.pixels = some image.pack := by
  obtain ⟨hd, hcrc⟩ := describes_readHeader h
  have hcomplete := completeHead_encode h hpos hle
  have hsize := Describes.size h hd
  obtain ⟨ops, hops, hvalid, hformat, htext⟩ := exists_ops_compress image.pack
  have hstart : Decoded (readHeader (image.header ++ image.palette)) image.pack.length []
      (installed (image.header ++ image.palette) buffer) :=
    ⟨rfl, rfl, hsize, rfl, _, rfl, by rw [hbuffer, hsize], by simp⟩
  obtain ⟨last, hfold, hlast, hop⟩ := foldlM_bodyBytes ops hstart rfl hvalid hformat (by rw [htext])
  rw [htext] at hlast
  obtain ⟨pixels, hpixels, hlen, htake⟩ := hlast.pixels
  rw [← hlen, take_length] at htake
  refine ⟨last, ⟨hcomplete, ?_, by rw [hops]; exact hfold, ?_⟩, hlast.header, by rw [hpixels, htake]⟩
  · intro hnil
    rw [← hops, hnil] at hfold
    obtain rfl := Option.some.inj hfold
    have := hlast.filled
    simp only [installed, started] at this
    omega
  · have hfull : ¬ (last.filled < last.size ∨ last.op ≠ .none) := by
      rw [hlast.filled, hlast.size_eq, hop]
      simp
    rw [bodyStatus, if_neg hfull, if_pos]
    rw [hpixels, hlast.size_eq, hlast.header, hcrc, Option.getD_some, htake, take_length]

end

/-- **The round trip.** An image that `Encode` accepts, of a known shape, on a canvas of at most
1024 columns and rows and of 1 to 65535 packed bytes, fed to a freshly reset decoder in any
chunks, is never refused, is done at the last feed, and comes out with its header, its palette,
its packed rows and its visible pixels. -/
theorem feedChunks_encode (image : Image) (stream : List UInt8) (hencode : image.encode = .ok stream)
    (hshape : image.shape = 0 ∨ image.shape = 1) (hwidth : image.canvasWidth ≤ 1024)
    (hheight : image.canvasHeight ≤ 1024) (hpos : 1 ≤ image.pack.length)
    (hle : image.pack.length ≤ 65535) (buffer : ℕ → List UInt8)
    (hbuffer : ∀ n, (buffer n).length = n) (chunks : List (List UInt8))
    (hchunks : chunks.flatten = stream) :
    let fed := feedChunks buffer tbImageReset chunks
    .bad ∉ fed.1 ∧ fed.1.getLast? = some .done ∧ fed.2.header.Describes image ∧
      fed.2.pixels = some image.pack ∧
      ∀ y < fed.2.header.height, ∀ index < (tbImageRow fed.2.header y).count,
        ∃ value,
          image.pixels[(y * image.width + ((tbImageRow fed.2.header y).x -
            (image.canvasWidth - image.width).tdiv 2) + index).toNat]? = some value ∧
          tbImagePixel fed.2.header (image.pack.drop (rowOffset fed.2.header y)) index =
            value &&& image.mask := by
  obtain ⟨haccepted, rfl⟩ := Image.encode_eq_ok_iff.mp hencode
  have h : Renderable image := ⟨haccepted, hshape, hwidth, hheight⟩
  obtain ⟨last, hdecodes, hheader, hpixels⟩ := decodes_encode h hpos hle hbuffer
  have hstart : After (image.header ++ image.palette) buffer [] tbImageReset :=
    Or.inl ⟨by rw [List.length_append, length_header]; simp [headerSize], rfl⟩
  obtain ⟨hbad, hlast, hafter⟩ := feedChunks_spec hdecodes chunks (by simpa using hchunks) hstart
  have hne : chunks ≠ [] := by
    rintro rfl
    exact absurd hchunks (by simp [Image.header])
  have hd := (describes_readHeader h).1
  rw [← hheader] at hd
  simp only [hafter.eq_last hdecodes]
  refine ⟨hbad, hlast hne, hd, hpixels, fun y hy index hindex => ?_⟩
  obtain ⟨hx, hcount, -⟩ := Describes.row h hd hy
  refine ⟨image.pixel y ((image.row y).x + index), ?_, Describes.pixel h hd hy hindex⟩
  rw [hx, add_sub_cancel_left, add_assoc]
  exact Image.getElem?_pixels haccepted (by rw [← hd.height]; exact_mod_cast hy)
    (by rw [← hcount]; exact_mod_cast hindex)

/-- A row of one color, and two rows alike, on a wider canvas. -/
def stripes : Image where
  bits := 4
  shape := 0
  width := 8
  height := 3
  canvasWidth := 10
  canvasHeight := 3
  tag := 7
  palette := [0xC0, 0xC1, 0xC2, 0xC3, 0xC4, 0xC5, 0xC6, 0xC7]
  pixels := replicate 8 1 ++ [1, 2, 3, 4, 5, 6, 7, 0] ++ [1, 2, 3, 4, 5, 6, 7, 0]

/-- The stream of a run, a literal and a copy, fed byte by byte. -/
theorem feedChunks_encode_stripes :
    compress stripes.pack = [0x81, 0x11, 0x03, 0x12, 0x34, 0x56, 0x70, 0xC1, 0x04, 0x00] ∧
      ∃ stream, stripes.encode = .ok stream ∧
        let fed := feedChunks (fun n => List.replicate n 0) tbImageReset (stream.map ([·]))
        fed.1.getLast? = some .done ∧ fed.2.pixels = some stripes.pack := by
  refine ⟨by decide +kernel, _, rfl, ?_⟩
  obtain ⟨-, hdone, -, hpixels, -⟩ := feedChunks_encode stripes _ rfl (Or.inl rfl) (by decide)
    (by decide) (by decide) (by decide) (fun n => List.replicate n 0) (by simp) _
    (List.flatMap_singleton' _)
  exact ⟨hdone, hpixels⟩

end RoundTrip

end Watch
