import TeleBezel.Image.RoundTrip
import TeleBezel.Link.MediaTransfer

/-!
# From the renderer to the screen

An encoded image is hardly longer than its packed rows. The phone sends it in messages, and whatever
of them is lost, late, repeated or out of order, a view that is ready shows the image that was rendered.
-/

open List

namespace Link

open Watch Tbi

variable {image : Image} {stream : List UInt8}

theorem bytes_row_nonneg (h : image.Accepted) (y : ℤ) : 0 ≤ (image.row y).bytes := by
  have hcount := (image.row_span y).2.1
  have hbits : 0 ≤ image.bits := by
    have := h.bits
    omega
  exact Int.tdiv_nonneg (by positivity) (by decide)

theorem size_eq_length_pack (h : image.Accepted) : image.size = image.pack.length := by
  have hrow : ∀ y : ℕ, (image.row y).bytes = ((image.packRow y).length : ℤ) := by
    intro y
    rw [Image.length_packRow, Int.toNat_of_nonneg (bytes_row_nonneg h y)]
  rw [Image.pack, length_flatMap, Nat.cast_list_sum, map_map]
  exact congrArg List.sum (map_congr_left fun y _ => hrow y)

/-- **The length of a stream**: beside its header and its palette, at most one byte for every 128 more
than the watch allocates. -/
theorem length_stream_le (image : Image) (stream : List UInt8) (hencode : image.encode = .ok stream) :
    (stream.length : ℤ) ≤
      headerSize + image.palette.length + image.size + (image.size + 127) / 128 := by
  obtain ⟨haccepted, rfl⟩ := Image.encode_eq_ok_iff.mp hencode
  have hcompress := length_compress_le image.pack
  rw [size_eq_length_pack haccepted, length_append, length_append, length_header]
  omega

theorem length_stream_le_stripes : ∃ stream, stripes.encode = .ok stream ∧ stream.length = 40 ∧
    (stream.length : ℤ) ≤ headerSize + 8 + stripes.size + (stripes.size + 127) / 128 :=
  ⟨_, rfl, by decide +kernel, length_stream_le stripes _ rfl⟩

section

variable (h : Renderable image)
include h

theorem bytes_row_le (y : ℤ) : (image.row y).bytes ≤ 512 := by
  obtain ⟨hx, hcount, hspan⟩ := image.row_span y
  have hwidth := h.width_le.trans h.canvasWidth_le
  have hbytes : (image.row y).bytes = ((image.row y).count * image.bits + 7).tdiv 8 := rfl
  rcases h.bits with hbits | hbits | hbits <;>
    · rw [hbytes, hbits, Int.tdiv_eq_ediv_of_nonneg (by omega)]
      omega

theorem length_rows_le (n : ℕ) :
    ((List.range n).flatMap image.packRow).length ≤ n * 512 := by
  induction n with
  | zero => exact Nat.le_refl 0
  | succ n ih =>
    have hbytes := bytes_row_le h n
    rw [range_succ, flatMap_append, length_append, flatMap_singleton, Image.length_packRow]
    omega

theorem fits_encode :
    Fits ⟨image.tag.toNat, image.header ++ image.palette ++ compress image.pack⟩ := by
  have hpack := length_rows_le h image.height.toNat
  have hheight := h.height_le.trans h.canvasHeight_le
  have hcompress := length_compress_le image.pack
  have hpalette := h.palette_length_lt
  refine ⟨image.tag.toNat_lt, ?_⟩
  simp only [length_append, length_header, headerSize]
  rw [← Image.pack] at hpack
  omega

theorem completeHead_of_leading {head : List UInt8} (hhead : CompleteHead head)
    (hleading : head <+: image.header ++ image.palette ++ compress image.pack) :
    head = image.header ++ image.palette := by
  have hfive : head.getD 5 0 = UInt8.ofNat image.palette.length :=
    getD_of_leading hleading (by rw [hhead.length]; exact Nat.lt_add_right _ (by decide))
  have hlen : head.length = (image.header ++ image.palette).length := by
    rw [hhead.length, hfive, UInt8.toNat_ofNat', Nat.mod_eq_of_lt h.palette_length_lt, length_append,
      length_header]
  exact (prefix_of_prefix_length_le hleading (prefix_append _ _) hlen.le).eq_of_length hlen

theorem HoldsWhole.rendered {d : TbImageDecoder}
    (hwhole : HoldsWhole ⟨image.tag.toNat, image.header ++ image.palette ++ compress image.pack⟩ d) :
    d.header.Describes image ∧ d.pixels = some image.pack := by
  obtain ⟨buffer, hbuffer, hdecoding⟩ := hwhole.decoding
  obtain ⟨head, hleading, hhead, -⟩ := hdecoding.exists_head hwhole.header.1
  obtain rfl := completeHead_of_leading h hhead hleading
  have hd := (describes_readHeader h).1
  have hsize := Describes.size h hd
  obtain ⟨last, hdecodes, hheader, hpixels⟩ := decodes_encode h (hsize ▸ hhead.size_pos)
    (hsize ▸ hhead.size_le) hbuffer
  -- the decoder of the view and an undisturbed one have been fed the same bytes
  have hlast : Decoding buffer (image.header ++ image.palette ++ compress image.pack) last := by
    refine ⟨Or.inr ⟨_, _, rfl, hhead, hdecodes.fold⟩, fun _ => ?_⟩
    rw [hdecodes.done]
    decide
  obtain rfl := hdecoding.unique hlast
  exact ⟨hheader ▸ hd, hpixels⟩

end

theorem runLog_fst (events : List (TbMediaEnv × MediaEvent)) :
    ∀ s : TbMedia × TransferLog, (runLog s events).1 = events.foldl TbMedia.step s.1 := by
  induction events with
  | nil => exact fun _ => rfl
  | cons event events ih => exact fun s => ih (TbMedia.stepLog s event)

/-- **A view that is ready shows the rendered image**, after any calls and responses. Where the
responses since nothing was received come from the phone for the stream that `Encode` wrote of an image,
the view holds its header, its palette, its packed rows and all its visible pixels. -/
theorem rendered_of_run (config : TbMediaConfig) (image : Image) (stream : List UInt8)
    (hencode : image.encode = .ok stream) (hshape : image.shape = 0 ∨ image.shape = 1)
    (hwidth : image.canvasWidth ≤ 1024) (hheight : image.canvasHeight ≤ 1024)
    (before after : List (TbMediaEnv × MediaEvent))
    (hdropped : Dropped (before.foldl TbMedia.step (TbMedia.tbMediaInit config)))
    (hafter : ∀ event ∈ after, OfRendition ⟨image.tag.toNat, stream⟩ event) :
    let media := (before ++ after).foldl TbMedia.step (TbMedia.tbMediaInit config)
    media.phase = .ready →
      media.image.header.Describes image ∧ media.image.pixels = some image.pack ∧
      ∀ y < media.image.header.height, ∀ index < (tbImageRow media.image.header y).count,
        ∃ value,
          image.pixels[(y * image.width + ((tbImageRow media.image.header y).x -
            (image.canvasWidth - image.width).tdiv 2) + index).toNat]? = some value ∧
          tbImagePixel media.image.header (image.pack.drop (rowOffset media.image.header y)) index =
            value &&& image.mask := by
  intro media hready
  obtain ⟨haccepted, rfl⟩ := Image.encode_eq_ok_iff.mp hencode
  have h : Renderable image := ⟨haccepted, hshape, hwidth, hheight⟩
  obtain ⟨taken, hrenders⟩ := renders_of_dropped (fits_encode h) {} hdropped hafter
  have hmedia : media = after.foldl TbMedia.step
      (before.foldl TbMedia.step (TbMedia.tbMediaInit config)) := foldl_append
  rw [runLog_fst, ← hmedia] at hrenders
  obtain ⟨hd, hpixels⟩ := (hrenders.whole hready).rendered h
  refine ⟨hd, hpixels, fun y hy index hindex => ?_⟩
  obtain ⟨hx, hcount, -⟩ := Describes.row h hd hy
  -- a row of a round image begins within its pixels, where its columns begin on the canvas
  refine ⟨image.pixel y ((image.row y).x + index), ?_, Describes.pixel h hd hy hindex⟩
  rw [hx, add_sub_cancel_left, add_assoc]
  apply Image.getElem?_pixels haccepted
  · rw [← hd.height]
    exact_mod_cast hy
  · rw [← hcount]
    exact_mod_cast hindex

def stripesRendition : Phone.Rendition :=
  ⟨stripes.tag.toNat, stripes.header ++ stripes.palette ++ compress stripes.pack⟩

/-- The first request is lost, and the second is answered. -/
def stripesTransfer : List (TbMediaEnv × MediaEvent) :=
  [({}, .bind [0x61] [0x31] [0x32] tbMediaFlagImage 1), ({ submitted := ⟨1, .timeout⟩ }, .load),
    ({}, .completed 1 { outcome := .timeout }), ({ submitted := ⟨2, .timeout⟩ }, .retry),
    ({}, .completed 2 (message 0 true ((payloadsFrom stripesRendition 0).headD [])))]

theorem rendered_of_run_stripes :
    let media := stripesTransfer.foldl TbMedia.step (TbMedia.tbMediaInit pixelConfig)
    media.phase = .ready ∧ media.image.pixels = some stripes.pack := by
  have hlength : stripesRendition.bytes.length = 40 := by decide +kernel
  have hafter : ∀ event ∈ stripesTransfer, OfRendition stripesRendition event := by
    intro event hevent
    simp only [stripesTransfer, mem_cons, not_mem_nil, or_false] at hevent
    rcases hevent with rfl | rfl | rfl | rfl | rfl
    · exact lawful_default
    · exact lawful_default
    · exact ⟨lawful_default, Or.inl (by decide)⟩
    · exact lawful_default
    · exact ⟨lawful_default, fromPhone_answerOf rfl (by omega) (by omega) 0 true⟩
  have hready : (stripesTransfer.foldl TbMedia.step (TbMedia.tbMediaInit pixelConfig)).phase = .ready := by
    decide +kernel
  have hencode : stripes.encode = .ok stripesRendition.bytes := by decide +kernel
  have hrendered := rendered_of_run pixelConfig stripes _ hencode (Or.inl rfl) (by decide) (by decide)
    [] stripesTransfer ⟨rfl, rfl, by decide, by decide⟩ hafter
  rw [nil_append] at hrendered
  exact ⟨hready, (hrendered hready).2.1⟩

end Link
