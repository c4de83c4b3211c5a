import TeleBezel.Link.CodecAgree
import TeleBezel.Phone.MediaChunks
import TeleBezel.Watch.MediaStream

/-!
# A rendition reaches the watch

The phone sends a rendition in messages, from the start or from an offset; the watch takes what stands
where its stream ends and asks again for the rest. Whatever is lost, late, repeated or out of order, a
transfer that ends ready holds the image that one undisturbed transfer gives.
-/

open List

namespace Link

open Watch Phone Word TbMedia Wire
open Phone.Codec (Item ofLength ascii u8 length_ascii_le length_u8 length_u16 length_u32 length_ascii8)

section Records

variable {env : TbMediaEnv} {rendition : Rendition}

/-- What the watch reads of the information record. -/
def infoRead (info : MediaInfo) : TbMediaInfoRecord where
  state := info.state.code
  index := info.value.index.masked
  count := info.value.count.masked
  flags := info.value.flags.masked
  tag := min 0xFFFFFFFF info.tag
  total := min 0xFFFFFFFF info.total
  retryAfter := min 0xFFFF info.retryAfter
  item := ascii (some info.item)

theorem length_body_mediaInfo (info : MediaInfo) :
    (Item.body textless (.mediaInfo info.value)).length < 65536 := by
  have hitem := length_ascii_le (some info.item)
  simp only [MediaInfo.value, Item.body, length_flatten, map_cons, map_nil, sum_cons, sum_nil,
    length_u8, length_u16, length_u32, length_ascii8]
  omega

theorem length_body_mediaData (position : ℕ) {data : List UInt8} (hdata : data.length ≤ 8096) :
    (Item.body textless (.mediaData (ofLength position) data)).length < 65536 := by
  simp only [Item.body, length_flatten, map_cons, map_nil, sum_cons, sum_nil, length_u32]
  omega

theorem tbCodecMediaInfo_body (info : MediaInfo) :
    tbCodecMediaInfo (Item.body textless (.mediaInfo info.value)) = some (infoRead info) := by
  have hstate : info.state.code < 256 := by cases info.state <;> decide
  have hdecode := tbCodecDecode_body textless (length_body_mediaInfo info)
  simp only [tbLayout, Item.type] at hdecode
  rw [tbCodecMediaInfo, hdecode]
  simp [values, byteValue, longValue, wordValue, shortValue, infoRead, MediaInfo.value,
    masked_ofLength hstate, clamped_ofLength_min, Nat.min_comm, take_of_length_le (length_ascii_le _)]

theorem tbCodecMediaData_body {position : ℕ} (hposition : position ≤ 0xFFFFFFFF)
    {data : List UInt8} (hdata : data.length ≤ 8096) :
    tbCodecMediaData (Item.body textless (.mediaData (ofLength position) data)) =
      some ⟨position, data⟩ := by
  have hdecode := tbCodecDecode_body textless (length_body_mediaData position hdata)
  simp only [tbLayout, Item.type] at hdecode
  rw [tbCodecMediaData, hdecode]
  simp [values, longValue, clamped_ofLength hposition]

theorem bytes_append_ne_nil (item : Item Unit) (rest : List UInt8) :
    item.bytes textless ++ rest ≠ [] := by
  simp [Item.bytes, Codec.record, u8]

variable (fuel : ℕ) (first : Bool) (media : TbMedia)

theorem parseLoop_mediaInfo (info : MediaInfo) (rest : List UInt8) :
    parseLoop env (fuel + 1) first media (mediaInfo info ++ rest) =
      if first then
        match TbMedia.info env media (infoRead info) with
        | (true, media) => parseLoop env fuel false media rest
        | (false, media) => (.protocol, media)
      else (.protocol, media) := by
  rw [parseLoop, mediaInfo, if_neg (bytes_append_ne_nil _ _),
    tbCodecNext_bytes textless (length_body_mediaInfo info)]
  cases first with
  | false => simp [Item.type, tbRecordMediaInfo, tbRecordMediaData]
  | true =>
    simp only [Item.type, tbRecordMediaInfo, and_self, if_true, tbCodecMediaInfo_body] <;> rfl

theorem parseChunks_mediaInfo (info : MediaInfo) (rest : List UInt8) (taken : List Chunk) :
    TbMedia.parseChunks env (fuel + 1) first media (mediaInfo info ++ rest) taken =
      if first then
        let taken := if (infoRead info).state = 0 ∧ (infoRead info).tag ≠ media.tag then [] else taken
        match TbMedia.info env media (infoRead info) with
        | (true, media) => TbMedia.parseChunks env fuel false media rest taken
        | (false, _) => taken
      else taken := by
  rw [TbMedia.parseChunks, mediaInfo, tbCodecNext_bytes textless (length_body_mediaInfo info)]
  cases first with
  | false => simp [Item.type, tbRecordMediaInfo, tbRecordMediaData]
  | true =>
    simp only [Item.type, tbRecordMediaInfo, and_self, if_true, tbCodecMediaInfo_body] <;> rfl

section

variable {position : ℕ} (hposition : position ≤ 0xFFFFFFFF) {data : List UInt8} (hdata :
  data.length ≤ 8096) (rest : List UInt8)
include position hposition data hdata rest

theorem parseLoop_mediaData :
    parseLoop env (fuel + 1) first media (mediaData position data ++ rest) =
      match TbMedia.feed env media ⟨position, data⟩ with
      | (.ok, media) => parseLoop env fuel false media rest
      | (result, media) => (result, media) := by
  rw [parseLoop, mediaData, if_neg (bytes_append_ne_nil _ _),
    tbCodecNext_bytes textless (length_body_mediaData position hdata)]
  simp only [tbCodecMediaData_body hposition hdata, Item.type, tbRecordMediaInfo, tbRecordMediaData]
  exact if_neg (by simp)

theorem parseChunks_mediaData (taken : List Chunk) :
    parseChunks env (fuel + 1) first media (mediaData position data ++ rest) taken =
      match TbMedia.feed env media ⟨position, data⟩ with
      | (.ok, media') =>
        parseChunks env fuel false media' rest (taken ++ [⟨media.tag, position, data⟩])
      | _ => taken := by
  rw [parseChunks, mediaData, tbCodecNext_bytes textless (length_body_mediaData position hdata)]
  simp only [tbCodecMediaData_body hposition hdata, Item.type, tbRecordMediaInfo, tbRecordMediaData]
  exact if_neg (by simp)

end

end Records

section Disturbed

variable {env : TbMediaEnv} {rendition : Rendition} {media media' : TbMedia} {taken : List Chunk}

/-- The wire has room for the fields of the rendition. -/
structure Fits (rendition : Rendition) : Prop where
  tag : rendition.tag < 2 ^ 32
  length : rendition.bytes.length < 2 ^ 32

structure Renders (rendition : Rendition) (media : TbMedia) (taken : List Chunk) : Prop where
  stream : Streamed media taken
  slices : ∀ chunk ∈ taken, chunk.data <+: rendition.bytes.drop chunk.offset
  header : media.image.headerReady = true → media.image.header.tag = rendition.tag
  transfer : media.phase = .transfer →
    media.total = rendition.bytes.length ∧ media.tag = rendition.tag
  ready : media.phase = .ready → media.image.pixels ≠ none ∧
    media.image.filled = media.image.size ∧ media.received = rendition.bytes.length

theorem Renders.settles (h : Renders rendition media taken) (hsettles : Settles media media') :
    Renders rendition media' taken where
  stream := hsettles.streamed h.stream
  slices := h.slices
  header := by
    rw [hsettles.image]
    exact h.header
  transfer hphase := by
    rcases hsettles.phase with hsame | hother
    · rw [hsettles.total, hsettles.tag]
      exact h.transfer (hsame.symm.trans hphase)
    · exact absurd hphase hother.1
  ready hphase := by
    rcases hsettles.phase with hsame | hother
    · rw [hsettles.image, hsettles.received]
      exact h.ready (hsame.symm.trans hphase)
    · exact absurd hphase hother.2

theorem renders_dropped (rendition : Rendition) (h : Dropped media) : Renders rendition media [] where
  stream := Streamed.nil h.image h.received
  slices chunk hchunk := absurd hchunk (by simp)
  header hready := by
    rw [h.image] at hready
    cases hready
  transfer hphase := absurd hphase h.phase.1
  ready hphase := absurd hphase h.phase.2

theorem header_feedLoop (fuel : ℕ) :
    ∀ {media media' : TbMedia} {buffer : ℕ → List UInt8} {stream data : List UInt8},
      Decoding buffer stream media.image →
      (media.image.headerReady = true → media.image.header.tag = media.tag) →
      feedLoop env fuel media data = (.ok, media', []) →
      media'.image.headerReady = true → media'.image.header.tag = media.tag := by
  induction fuel with
  | zero =>
    intro media media' buffer stream data _ htag hloop
    cases hloop
    exact htag
  | succ fuel ih =>
    intro media media' buffer stream data h htag hloop
    rw [feedLoop] at hloop
    split_ifs at hloop with hempty
    · cases hloop
      exact htag
    dsimp only at hloop
    rcases h.feed data with hbad | ⟨hstatus, hused, hnext⟩ | ⟨q, rest, rfl, hhead, hready⟩
    · rw [hbad] at hloop
      cases hloop
    · have htag' : (tbImageFeed media.image data).decoder.headerReady = true →
          (tbImageFeed media.image data).decoder.header.tag = media.tag := by
        intro hready
        obtain ⟨hready', hheader⟩ := h.header_feed hstatus hready
        rw [hheader]
        exact htag hready'
      rcases hstatus with hmore | hdone
      · rw [hmore, hused, drop_length] at hloop
        have hrest := @ih { media with image := (tbImageFeed media.image data).decoder } media' _ _ _
          hnext htag' hloop
        exact hrest
      · rw [hdone] at hloop
        obtain ⟨rfl, -⟩ := Prod.mk.inj (Prod.mk.inj hloop).2
        exact htag'
    · rw [hready] at hloop
      dsimp only at hloop
      split_ifs at hloop with hwrong
      · cases hloop
      rw [not_or, not_not] at hwrong
      split at hloop
      · cases hloop
      · next pixels _ =>
        have hstart : Decoding (fun _ => pixels) (stream ++ q)
            (installed (stream ++ q) fun _ => pixels) := decoding_installed hhead
        have hrest := @ih { media with image := installed (stream ++ q) fun _ => pixels } media' _ _ _
          hstart (fun _ => hwrong.1) hloop
        exact hrest

theorem Renders.feed (h : Renders rendition media taken) (henv : env.Lawful)
    {record : TbMediaDataRecord} (hslice : record.data <+: rendition.bytes.drop record.offset)
    (hfeed : TbMedia.feed env media record = (.ok, media')) :
    Renders rendition media' (taken ++ [⟨media.tag, record.offset, record.data⟩]) := by
  have hstream := h.stream.feed henv hfeed
  unfold TbMedia.feed at hfeed
  split_ifs at hfeed with hrefused
  · cases hfeed
  rw [not_or, not_not, not_not] at hrefused
  obtain ⟨htotal, htag⟩ := h.transfer hrefused.1
  obtain ⟨image, hframe⟩ := Streamed.feedLoop_frame env record.data.length media record.data
  rcases hloop : feedLoop env record.data.length media record.data with ⟨result, media₁, rest⟩
  rw [hloop] at hfeed hframe
  dsimp only at hframe
  cases result with
  | ok =>
    dsimp only at hfeed
    split_ifs at hfeed with hrest
    · cases hfeed
    rw [not_not] at hrest
    subst hrest
    obtain ⟨buffer, -, hdecoding⟩ := h.stream.image
    have hheader := header_feedLoop _ hdecoding (fun hready => (h.header hready).trans htag.symm) hloop
    obtain ⟨-, rfl⟩ := Prod.mk.inj hfeed
    have hphase : media₁.phase = .transfer := by
      rw [hframe]
      exact hrefused.1
    refine ⟨hstream, fun chunk hchunk => ?_, fun hready => ?_, fun _ => ?_, fun hready => ?_⟩
    · rcases mem_append.mp hchunk with hold | hnew
      · exact h.slices chunk hold
      · rw [mem_singleton.mp hnew]
        exact hslice
    · exact (hheader hready).trans htag
    · rw [hframe]
      exact ⟨htotal, htag⟩
    · exact absurd (hphase.symm.trans hready) (by simp)
  | protocol => cases hfeed
  | corrupt => cases hfeed
  | memory => cases hfeed

section

variable (h : Renders rendition media taken) (hfits : Fits rendition)
include h hfits

theorem Renders.info (env : TbMediaEnv)
    {info : MediaInfo} (habout : info.About rendition) :
    Renders rendition (TbMedia.info env media (infoRead info)).2
      (if (infoRead info).state = 0 ∧ (infoRead info).tag ≠ media.tag then [] else taken) := by
  have hstream := h.stream.info env (infoRead info)
  have htag := hfits.tag
  have hlength := hfits.length
  by_cases hready : info.state = .ready
  · obtain ⟨htag', htotal⟩ := habout hready
    have hinfo : (TbMedia.info env media (infoRead info)).2 =
        (media.describe (infoRead info)).announce (infoRead info) := by
      simp only [TbMedia.info, infoRead, hready, MediaState.code]
    rw [hinfo] at hstream ⊢
    refine ⟨hstream, fun chunk hchunk => ?_, fun hheader => ?_, fun _ => ⟨?_, ?_⟩, fun hphase => ?_⟩
    · split_ifs at hchunk
      · cases hchunk
      · exact h.slices chunk hchunk
    · simp only [TbMedia.announce] at hheader ⊢
      split_ifs at hheader ⊢
      · cases hheader
      · exact h.header hheader
    · simp only [TbMedia.announce, infoRead, htotal]
      omega
    · simp only [TbMedia.announce, infoRead, htag']
      omega
    · cases hphase
  · have hother : (infoRead info).state ≠ 0 := by
      simp only [infoRead]
      cases hstate : info.state <;> simp_all [MediaState.code]
    rw [if_neg (by simp [hother])] at hstream ⊢
    refine h.settles ?_
    have hwait : ∀ retryAfter, Settles media
        (TbMedia.waitFor env (media.describe (infoRead info)) retryAfter) := by
      intro retryAfter
      unfold TbMedia.waitFor
      split_ifs <;> exact ⟨rfl, rfl, rfl, rfl, Or.inr ⟨by simp, by simp⟩⟩
    unfold TbMedia.info
    split
    · next hzero => exact absurd hzero hother
    · exact hwait _
    · exact hwait _
    all_goals exact ⟨rfl, rfl, rfl, rfl, Or.inr ⟨by simp, by simp⟩⟩

theorem Renders.parse_data
    (henv : env.Lawful) {payload : List UInt8} (hsent : SentData rendition payload) {fuel : ℕ}
    (hfuel : payload.length ≤ fuel) {first : Bool} {result : TbFeed}
    (hparse : TbMedia.parseLoop env fuel first media payload = (result, media'))
    (hresult : result = .ok ∨ result = .protocol) :
    Renders rendition media' (TbMedia.parseChunks env fuel first media payload taken) := by
  cases hsent with
  | none =>
    cases fuel with
    | zero | succ fuel =>
      obtain ⟨-, rfl⟩ := Prod.mk.inj hparse
      exact h
  | data position n hroom hposition =>
    have hlen : ((rendition.bytes.drop position).take n).length ≤ 8096 := by
      rw [length_take]
      omega
    have hlength := hfits.length
    have hword : position ≤ 0xFFFFFFFF := by omega
    have hslice : (rendition.bytes.drop position).take n <+: rendition.bytes.drop position :=
      List.take_prefix _ _
    have hend : ∀ (fuel : ℕ) (media : TbMedia), TbMedia.parseLoop env fuel false media [] = (.ok, media) := by
      intro fuel media
      cases fuel <;> rfl
    have hend' : ∀ (fuel : ℕ) (media : TbMedia) (taken : List Chunk),
        TbMedia.parseChunks env fuel false media [] taken = taken := by
      intro fuel media taken
      cases fuel <;> rfl
    obtain ⟨fuel, rfl⟩ : ∃ more, fuel = more + 1 := by
      refine ⟨fuel - 1, ?_⟩
      rw [length_mediaData] at hfuel
      omega
    have hloop := @parseLoop_mediaData env fuel first media position hword _ hlen []
    have hchunks := @parseChunks_mediaData env fuel first media position hword _ hlen [] taken
    rw [append_nil] at hloop hchunks
    rw [hloop] at hparse
    rw [hchunks]
    rcases hfeed : TbMedia.feed env media ⟨position, (rendition.bytes.drop position).take n⟩ with
      ⟨fed, media₁⟩
    rw [hfeed] at hparse
    cases fed with
    | ok =>
      simp only [hend] at hparse
      obtain ⟨-, rfl⟩ := Prod.mk.inj hparse
      simp only [hend']
      exact h.feed henv hslice hfeed
    | protocol =>
      obtain ⟨-, rfl⟩ := Prod.mk.inj hparse
      rw [TbMedia.eq_of_feed_protocol hfeed]
      exact h
    | corrupt | memory =>
      obtain ⟨rfl, -⟩ := Prod.mk.inj hparse
      rcases hresult with hok | hprotocol
      · cases hok
      · cases hprotocol

theorem Renders.parse
    (henv : env.Lawful) {response : TbResponse} (hsent : Sent rendition response.payload)
    {result : TbFeed} (hparse : TbMedia.parse env media response = (result, media'))
    (hresult : result = .ok ∨ result = .protocol) :
    Renders rendition media' (parseChunks env response.payload.length
      (response.index = 0) media response.payload taken) := by
  unfold TbMedia.parse at hparse
  generalize response.payload = payload at hsent hparse ⊢
  cases hsent with
  | data hdata => exact h.parse_data hfits henv hdata le_rfl hparse hresult
  | @info payload info habout hdata =>
    obtain ⟨fuel, hfuel, hle⟩ : ∃ fuel, (mediaInfo info ++ payload).length = fuel + 1 ∧
        payload.length ≤ fuel := by
      refine ⟨(mediaInfo info ++ payload).length - 1, ?_, ?_⟩
      · rw [length_append, length_mediaInfo]
        omega
      · rw [length_append, length_mediaInfo]
        omega
    rw [hfuel] at hparse ⊢
    rw [parseLoop_mediaInfo] at hparse
    rw [parseChunks_mediaInfo]
    by_cases hfirst : decide (response.index = 0) = true
    · rw [if_pos hfirst] at hparse ⊢
      have hinfo := h.info hfits env habout
      rcases hread : TbMedia.info env media (infoRead info) with ⟨_ | _, media₁⟩
      · rw [hread] at hparse hinfo
        obtain ⟨-, rfl⟩ := Prod.mk.inj hparse
        exact hinfo
      · rw [hread] at hparse hinfo
        exact hinfo.parse_data hfits henv hdata hle hparse hresult
    · rw [if_neg hfirst] at hparse ⊢
      obtain ⟨-, rfl⟩ := Prod.mk.inj hparse
      exact h

/-- A response comes from the phone for a rendition: it is refused, late or lost, or its payload is one
of the messages that the phone answers some request with. -/
def FromPhone (rendition : Rendition) (response : TbResponse) : Prop :=
  response.outcome ≠ .response ∨ response.result ≠ tbResultOk ∨
    ∃ inboxSize index offset tag cached answer inTime payloads put,
      Knows rendition cached answer ∧
      Phone.media inboxSize index offset tag cached answer inTime = .messages payloads put ∧
      response.payload ∈ payloads

/-- Responses come from the phone. -/
def OfRendition (rendition : Rendition) : TbMediaEnv × MediaEvent → Prop
  | (env, .completed _ response) => env.Lawful ∧ FromPhone rendition response
  | (env, _) => env.Lawful

theorem Renders.step {event : TbMediaEnv × MediaEvent} (hevent : OfRendition rendition event) :
    Renders rendition (media.step event) (media.chunksAfter taken event) := by
  by_cases hdrops : media.drops event = true
  · rw [chunksAfter_of_drops hdrops]
    exact renders_dropped rendition (dropped_of_drops hdrops)
  rw [Bool.not_eq_true] at hdrops
  by_cases htakes : media.takes event = true
  · obtain ⟨env, event⟩ := event
    cases event with
    | completed sequence response =>
      obtain ⟨henv, hphone⟩ := hevent
      have hparses : media.parses sequence response = true :=
        (Bool.and_eq_true_iff.mp htakes).1
      have hok : response.outcome = .response ∧ response.result = tbResultOk := by
        have hkept := (of_decide_eq_true hparses).2
        rw [not_or, not_not, not_not] at hkept
        exact hkept
      have hsent : Sent rendition response.payload := by
        rcases hphone with hoff | hoff | ⟨_, _, _, _, _, _, _, _, _, hknows, hmedia, hmem⟩
        · exact absurd hok.1 hoff
        · exact absurd hok.2 hoff
        · exact sent_of_media hknows hmedia hmem
      obtain ⟨hchunks, ⟨media₁, hparse, hstep⟩ | ⟨media₁, hparse, hstep⟩⟩ := step_of_takes htakes
      · have hrenders := h.parse hfits henv hsent hparse (Or.inl rfl)
        rw [hchunks, hstep]
        rcases finish_cases env media₁ response with hsettles | ⟨hphase, hpixels, hfull, hall, hready⟩
        · exact hrenders.settles hsettles
        · rw [hready]
          refine ⟨hrenders.stream.congr rfl rfl rfl, hrenders.slices, hrenders.header, ?_, ?_⟩
          · intro htransfer
            cases htransfer
          · intro _
            exact ⟨hpixels, hfull, hall.trans (hrenders.transfer hphase).1⟩
      · rw [hchunks]
        exact (h.parse hfits henv hsent hparse (Or.inr rfl)).settles hstep
    | _ => cases htakes
  · rw [Bool.not_eq_true] at htakes
    obtain ⟨hsettles, hchunks⟩ := @settles_of_not_takes media taken event hdrops htakes
    rw [hchunks]
    exact h.settles hsettles

end

theorem chunkBytes_leading {bytes : List UInt8} (taken : List Chunk) :
    ∀ {offset : ℕ}, Consecutive offset taken →
      (∀ chunk ∈ taken, chunk.data <+: bytes.drop chunk.offset) →
      chunkBytes taken <+: bytes.drop offset := by
  induction taken with
  | nil =>
    intro offset _ _
    exact nil_prefix
  | cons chunk taken ih =>
    intro offset hconsecutive hslices
    obtain ⟨hoffset, hrest⟩ := hconsecutive
    obtain ⟨after, hafter⟩ := hslices chunk mem_cons_self
    have hrest := ih hrest fun chunk' hchunk' => hslices chunk' (mem_cons_of_mem _ hchunk')
    rw [hoffset] at hafter
    rw [← drop_drop, ← hafter, drop_left] at hrest
    rw [← hafter, chunkBytes, flatMap_cons]
    exact (prefix_append_right_inj _).mpr hrest

structure HoldsWhole (rendition : Rendition) (d : TbImageDecoder) : Prop where
  decoding : ∃ buffer, (∀ n, (buffer n).length = n) ∧ Decoding buffer rendition.bytes d
  pixels : d.pixels ≠ none
  filled : d.filled = d.size
  header : d.headerReady = true ∧ d.header.tag = rendition.tag

theorem Renders.whole (h : Renders rendition media taken) (hready : media.phase = .ready) :
    HoldsWhole rendition media.image := by
  obtain ⟨hpixels, hfull, hreceived⟩ := h.ready hready
  obtain ⟨buffer, hbuffer, hdecoding⟩ := h.stream.image
  have hleading := chunkBytes_leading taken h.stream.consecutive h.slices
  rw [drop_zero] at hleading
  have hall : chunkBytes taken = rendition.bytes :=
    hleading.eq_of_length (h.stream.received.symm.trans hreceived)
  rw [hall] at hdecoding
  have hheader : media.image.headerReady = true := by
    rcases hdecoding.taken with ⟨-, hcollect⟩ | ⟨head, q, -, -, hfold⟩
    · rw [hcollect] at hpixels
      exact absurd rfl hpixels
    · exact (sameFrame_foldlM hfold).headerReady
  exact ⟨⟨buffer, hbuffer, hdecoding⟩, hpixels, hfull, hheader, h.header hheader⟩

theorem HoldsWhole.same {d d' : TbImageDecoder} (h : HoldsWhole rendition d) {buffer : ℕ → List UInt8}
    (hbuffer : ∀ n, (buffer n).length = n) (h' : Decoding buffer rendition.bytes d') :
    d'.header = d.header ∧ d'.pixels = d.pixels ∧ d'.filled = d.filled ∧ d'.size = d.size := by
  obtain ⟨buffer₀, hbuffer₀, hdecoding⟩ := h.decoding
  obtain ⟨d'', hdecoding', hsame⟩ := hdecoding.sameText hbuffer₀ hbuffer
  obtain rfl : d' = d'' := hdecoding'.unique h'
  rcases hsame with rfl | hsame
  · exact ⟨rfl, rfl, rfl, rfl⟩
  · exact ⟨hsame.header, hsame.pixels_eq h.filled.ge, hsame.filled, hsame.size⟩

end Disturbed

section Undisturbed

variable {env : TbMediaEnv} {rendition : Rendition} {media : TbMedia} {sequence : ℕ}

def message (index : ℕ) (final : Bool) (payload : List UInt8) : TbResponse where
  outcome := .response
  result := tbResultOk
  payload := payload
  index := index
  final := final

def deliver (env : TbMediaEnv) (sequence : ℕ) :
    ℕ → List (List UInt8) → List (TbMediaEnv × MediaEvent)
  | _, [] => []
  | index, payload :: payloads =>
    (env, .completed sequence (message index payloads.isEmpty payload)) ::
      deliver env sequence (index + 1) payloads

/-- No allocation fails. -/
def Ample (env : TbMediaEnv) : Prop := env.Lawful ∧ ∀ n, env.malloc n ≠ none

structure Awaits (rendition : Rendition) (sequence : ℕ) (media : TbMedia) (position : ℕ) : Prop where
  phase : media.phase = .transfer
  pending : media.pending = sequence
  tag : media.tag = rendition.tag
  total : media.total = rendition.bytes.length
  received : media.received = position
  position_le : position ≤ rendition.bytes.length
  image : ∃ buffer, (∀ n, (buffer n).length = n) ∧
    Decoding buffer (rendition.bytes.take position) media.image

theorem feedLoop_ok (henv : env.Lawful) (hmalloc : ∀ n, env.malloc n ≠ none) (fuel : ℕ) :
    ∀ {media : TbMedia} {stream data : List UInt8},
      (∃ buffer, (∀ n, (buffer n).length = n) ∧ Decoding buffer stream media.image) →
      (∃ buffer d, (∀ n, (buffer n).length = n) ∧ Decoding buffer (stream ++ data) d) →
      (∀ head, head <+: stream ++ data → CompleteHead head →
        (readHeader head).tag = media.tag ∧ tbImageSize (readHeader head) ≤ media.budget) →
      data.length ≤ fuel → ∃ media', feedLoop env fuel media data = (.ok, media', []) := by
  induction fuel with
  | zero =>
    intro media stream data _ _ _ hfuel
    obtain rfl := length_eq_zero_iff.mp (Nat.le_zero.mp hfuel)
    exact ⟨media, rfl⟩
  | succ fuel ih =>
    intro media stream data ⟨buffer, hbuffer, h⟩ hwhole hheads hfuel
    rcases eq_or_ne data [] with rfl | hne
    · exact ⟨media, rfl⟩
    obtain ⟨buffer', d', hbuffer', hdecoding'⟩ := hwhole
    obtain ⟨d, hdecoding, -⟩ := hdecoding'.sameText hbuffer' hbuffer
    have hbad := h.feed_ne_bad hdecoding
    rw [feedLoop, if_neg hne]
    dsimp only
    rcases h.feed data with hrefused | ⟨hstatus, hused, -⟩ | ⟨q, rest, rfl, hhead, hready⟩
    · exact absurd hrefused hbad
    · rw [hused, drop_length]
      rcases hstatus with hmore | hdone
      · rw [hmore]
        cases fuel with
        | zero => exact ⟨_, rfl⟩
        | succ fuel => exact ⟨_, rfl⟩
      · rw [hdone]
        exact ⟨_, rfl⟩
    · rw [hready]
      have hleading : stream ++ q <+: stream ++ (q ++ rest) := by
        rw [← append_assoc]
        exact prefix_append _ _
      obtain ⟨htag, hbudget⟩ := hheads (stream ++ q) hleading hhead
      have hfine : ¬ ((started (stream ++ q) none).header.tag ≠ media.tag ∨
          media.budget < (started (stream ++ q) none).size) := by
        rw [not_or, not_not, not_lt]
        exact ⟨htag, hbudget⟩
      rw [if_neg hfine, drop_left]
      obtain ⟨pixels, hpixels⟩ := Option.ne_none_iff_exists'.mp
        (hmalloc (started (stream ++ q) none).size)
      rw [hpixels]
      have hlen : pixels.length = tbImageSize (readHeader (stream ++ q)) := henv _ _ hpixels
      rw [← append_assoc] at hdecoding' hheads
      refine @ih { media with image := { started (stream ++ q) none with pixels := some pixels } }
        (stream ++ q) rest ⟨bufferOf pixels, length_bufferOf pixels, decoding_bufferOf hhead hlen⟩
        ⟨buffer', d', hbuffer', hdecoding'⟩ hheads ?_
      have hq : q ≠ [] := by
        rintro rfl
        rw [append_nil] at hhead
        rcases h.taken with ⟨hcollect, -⟩ | ⟨head, r, rfl, hhead', hfold⟩
        · exact hcollect.not_leading hhead prefix_rfl
        · rcases feed_body_cases hfold ([] ++ rest) with hrefused | ⟨d₁, hfed, -⟩
          · exact hbad hrefused
          · rw [hfed] at hready
            exact bodyStatus_ne_headerReady d₁ (TbImageFed.mk.inj hready).1
      have hpos := length_pos_iff.mpr hq
      rw [length_append] at hfuel
      omega

theorem HoldsWhole.heads {d : TbImageDecoder} (h : HoldsWhole rendition d) {stream head : List UInt8}
    (hstream : stream <+: rendition.bytes) (hleading : head <+: stream) (hhead : CompleteHead head) :
    (readHeader head).tag = rendition.tag ∧ tbImageSize (readHeader head) = d.size := by
  obtain ⟨buffer, -, hdecoding⟩ := h.decoding
  obtain ⟨head', hleading', hhead', hheader, hsize⟩ := hdecoding.exists_head h.header.1
  obtain rfl := hhead.eq_of_leading hhead' (hleading.trans hstream) hleading'
  exact ⟨by rw [← hheader]; exact h.header.2, hsize.symm⟩

theorem HoldsWhole.leading {d : TbImageDecoder} (h : HoldsWhole rendition d) {stream : List UInt8}
    (hstream : stream <+: rendition.bytes) :
    ∃ buffer d, (∀ n, (buffer n).length = n) ∧ Decoding buffer stream d := by
  obtain ⟨buffer, hbuffer, hdecoding⟩ := h.decoding
  obtain ⟨rest, hrest⟩ := hstream
  rw [← hrest] at hdecoding
  rcases eq_or_ne rest [] with rfl | hne
  · rw [append_nil] at hdecoding
    exact ⟨buffer, d, hbuffer, hdecoding⟩
  · obtain ⟨d', hdecoding'⟩ := hdecoding.of_append hne
    exact ⟨buffer, d', hbuffer, hdecoding'⟩

variable {position : ℕ}

theorem Awaits.feed (h : Awaits rendition sequence media position) (henv : Ample env)
    {d : TbImageDecoder} (hwhole : HoldsWhole rendition d) (hbudget : d.size ≤ media.budget) (n : ℕ) :
    ∃ media', TbMedia.feed env media ⟨position, (rendition.bytes.drop position).take n⟩ =
        (.ok, media') ∧
      Awaits rendition sequence media'
        (position + ((rendition.bytes.drop position).take n).length) ∧
      media'.budget = media.budget := by
  set data := (rendition.bytes.drop position).take n with hdata
  have hjoin : rendition.bytes.take position ++ data =
      rendition.bytes.take (position + data.length) := by
    rw [take_add, ← prefix_iff_eq_take.mp (List.take_prefix n _)]
  have hleading : rendition.bytes.take position ++ data <+: rendition.bytes := by
    rw [hjoin]
    exact List.take_prefix _ _
  have hheads : ∀ head, head <+: rendition.bytes.take position ++ data → CompleteHead head →
      (readHeader head).tag = media.tag ∧ tbImageSize (readHeader head) ≤ media.budget := by
    intro head hhead hcomplete
    obtain ⟨htag, hsize⟩ := hwhole.heads hleading hhead hcomplete
    exact ⟨htag.trans h.tag.symm, hsize.trans_le hbudget⟩
  obtain ⟨media₁, hloop⟩ := feedLoop_ok henv.1 henv.2 data.length h.image (hwhole.leading hleading)
    hheads le_rfl
  have hdecoding := Streamed.decoding_feedLoop henv.1 _ h.image hloop
  obtain ⟨image, hframe⟩ := Streamed.feedLoop_frame env data.length media data
  rw [hloop] at hframe
  dsimp only at hframe
  have hlen : position + data.length ≤ rendition.bytes.length := by
    rw [hdata, length_take, length_drop]
    have := h.position_le
    omega
  have hshort : position + data.length < 2 ^ 32 := by
    obtain ⟨buffer, -, hshort⟩ := hdecoding
    have := hshort.length_lt
    rw [hjoin, length_take] at this
    omega
  refine ⟨{ media₁ with received := uint32 (media₁.received + data.length : ℕ) }, ?_, ?_, ?_⟩
  · rw [TbMedia.feed, if_neg (by simp [h.phase, h.received]), hloop]
    rfl
  · rw [hjoin] at hdecoding
    subst hframe
    refine ⟨h.phase, h.pending, h.tag, h.total, ?_, hlen, hdecoding⟩
    simp only [h.received, uint32]
    omega
  · rw [hframe]

theorem parses_message (hpending : media.pending = sequence) (index : ℕ) (final : Bool)
    (payload : List UInt8) : media.parses sequence (message index final payload) = true := by
  simp [parses, message, hpending]

theorem Awaits.more (h : Awaits rendition sequence media position) (env : TbMediaEnv)
    (index : ℕ) (payload : List UInt8) :
    Awaits rendition sequence (media.finish env (message index false payload)) position ∧
      (media.finish env (message index false payload)).budget = media.budget := by
  have hfinish : media.finish env (message index false payload) = media.changed := by
    simp [finish, message]
  rw [hfinish]
  exact ⟨⟨h.phase, h.pending, h.tag, h.total, h.received, h.position_le, h.image⟩, rfl⟩

/-- The view is ready with the image of the decoder `d`. -/
structure ReadyWith (d : TbImageDecoder) (media : TbMedia) : Prop where
  phase : media.phase = .ready
  header : media.image.header = d.header
  pixels : media.image.pixels = d.pixels

theorem Awaits.ready (h : Awaits rendition sequence media rendition.bytes.length)
    {d : TbImageDecoder} (hwhole : HoldsWhole rendition d) (env : TbMediaEnv) (index : ℕ)
    (payload : List UInt8) : ReadyWith d (media.finish env (message index true payload)) := by
  obtain ⟨buffer, hbuffer, hdecoding⟩ := h.image
  rw [take_length] at hdecoding
  obtain ⟨hheader, hpixels, hfilled, hsize⟩ := hwhole.same hbuffer hdecoding
  have hfull : media.image.pixels ≠ none ∧ media.image.filled = media.image.size ∧
      media.received = media.total := by
    refine ⟨?_, ?_, ?_⟩
    · rw [hpixels]
      exact hwhole.pixels
    · rw [hfilled, hsize]
      exact hwhole.filled
    · rw [h.received, h.total]
  have hfinish : media.finish env (message index true payload) =
      changed { media with pending := 0, phase := .ready } := by
    simp [finish, message, h.phase, hfull]
  rw [hfinish]
  exact ⟨rfl, hheader, hpixels⟩

theorem parseLoop_nil (fuel : ℕ) (first : Bool) (media : TbMedia) :
    parseLoop env fuel first media [] = (.ok, media) := by
  cases fuel <;> rfl

theorem parseLoop_data_only (hposition : position ≤ 0xFFFFFFFF) {data : List UInt8}
    (hdata : data.length ≤ 8096) (fuel : ℕ) (first : Bool) (media : TbMedia) {media' : TbMedia}
    (hfeed : TbMedia.feed env media ⟨position, data⟩ = (.ok, media')) :
    parseLoop env (fuel + 1) first media (mediaData position data) = (.ok, media') := by
  have hloop := @parseLoop_mediaData env fuel first media position hposition data hdata []
  rw [append_nil, hfeed] at hloop
  rw [hloop]
  exact parseLoop_nil fuel false media'

theorem step_message (hpending : media.pending = sequence) {index : ℕ} {final : Bool}
    {payload : List UInt8} {media' : TbMedia}
    (hparse : TbMedia.parse env media (message index final payload) = (.ok, media')) :
    media.step (env, .completed sequence (message index final payload)) =
      media'.finish env (message index final payload) := by
  simp only [TbMedia.step, completed_eq, parses_message hpending, if_true, hparse]

theorem length_mediaData_pos (position : ℕ) (data : List UInt8) :
    ∃ fuel, (mediaData position data).length = fuel + 1 := by
  refine ⟨(mediaData position data).length - 1, ?_⟩
  rw [length_mediaData]
  omega

variable {d : TbImageDecoder}

theorem Awaits.deliver (hfits : Fits rendition) (henv : Ample env) (hwhole : HoldsWhole rendition d)
    {infoRecord : List UInt8} {budget : ℤ} (hlow : 8 ≤ budget) (hhigh : budget ≤ 8096) (fuel : ℕ) :
    ∀ {position index : ℕ} {media : TbMedia}, Awaits rendition sequence media position →
      position < rendition.bytes.length → d.size ≤ media.budget →
      rendition.bytes.length ≤ position + fuel →
      ReadyWith d ((Link.deliver env sequence index
        (chunksLoop infoRecord rendition.bytes budget (fuel + 1) false position)).foldl
          TbMedia.step media) := by
  induction fuel with
  | zero =>
    intro position index media _ hposition _ hfuel
    omega
  | succ fuel ih =>
    intro position index media h hposition hbudget hfuel
    set slice := (rendition.bytes.drop position).take (budget - (0 : ℕ) - 7).toNat with hslice
    have hlength := hfits.length
    have hshort : slice.length ≤ 8096 := by
      rw [hslice, length_take]
      omega
    have hpos : 0 < slice.length := by
      rw [hslice, length_take, length_drop]
      omega
    have hne : slice ≠ [] := length_pos_iff.mp hpos
    have hloop : chunksLoop infoRecord rendition.bytes budget (fuel + 1 + 1) false position =
        mediaData position slice ::
          chunksLoop infoRecord rendition.bytes budget (fuel + 1) false (position + slice.length) := by
      rw [chunksLoop, if_neg (by omega)]
      simp only [Bool.false_eq_true, if_false, ← hslice, if_neg hne, nil_append]
      rw [if_neg (by omega)]
    obtain ⟨media₁, hfeed, h₁, hbudget₁⟩ := h.feed henv hwhole hbudget (budget - (0 : ℕ) - 7).toNat
    rw [← hslice] at hfeed h₁
    obtain ⟨k, hk⟩ := length_mediaData_pos position slice
    have hparse : ∀ final, TbMedia.parse env media (message index final (mediaData position slice)) =
        (.ok, media₁) := by
      intro final
      have honly := parseLoop_data_only (by omega) hshort k (decide (index = 0)) media hfeed
      rw [← hk] at honly
      exact honly
    have hstep := fun final => step_message h.pending (hparse final)
    rw [hloop, Link.deliver, foldl_cons]
    rcases Nat.lt_or_ge (position + slice.length) rendition.bytes.length with hlt | hge
    · have hrest : chunksLoop infoRecord rendition.bytes budget (fuel + 1) false
          (position + slice.length) ≠ [] := by
        rw [chunksLoop, if_neg (by omega)]
        simp
      rw [isEmpty_eq_false_iff.mpr hrest, hstep]
      obtain ⟨h₂, hbudget₂⟩ := h₁.more env index (mediaData position slice)
      exact ih h₂ hlt (by rw [hbudget₂, hbudget₁]; exact hbudget) (by omega)
    · have hrest : chunksLoop infoRecord rendition.bytes budget (fuel + 1) false
          (position + slice.length) = [] := by
        rw [chunksLoop, if_pos ⟨rfl, hge⟩]
      have hend : position + slice.length = rendition.bytes.length :=
        Nat.le_antisymm h₁.position_le hge
      rw [hend] at h₁
      rw [hrest, isEmpty_nil, hstep, Link.deliver, foldl_nil]
      exact h₁.ready hwhole env index _

theorem HoldsWhole.length_pos (h : HoldsWhole rendition d) : 0 < rendition.bytes.length := by
  obtain ⟨buffer, -, hdecoding⟩ := h.decoding
  obtain ⟨head, hleading, hhead, -⟩ := hdecoding.exists_head h.header.1
  refine lt_of_lt_of_le ?_ hleading.length_le
  rw [hhead.length]
  exact Nat.add_pos_left (by decide) _

theorem awaits_announce (hfits : Fits rendition) (hwhole : HoldsWhole rendition d) {info : MediaInfo}
    (hstate : info.state = .ready) (habout : info.About rendition)
    (hpending : media.pending = sequence) (himage : media.image = tbImageReset)
    (hreceived : media.received = 0) :
    ∃ media', TbMedia.info env media (infoRead info) = (true, media') ∧
      Awaits rendition sequence media' 0 ∧ media'.budget = media.budget := by
  have hlength := hfits.length
  have htag := hfits.tag
  have hpos := hwhole.length_pos
  obtain ⟨htag', htotal⟩ := habout hstate
  have hinfo : TbMedia.info env media (infoRead info) = (decide (0 < (infoRead info).total),
      (media.describe (infoRead info)).announce (infoRead info)) := by
    simp only [TbMedia.info, infoRead, hstate, MediaState.code]
  have hread : (infoRead info).total = rendition.bytes.length := by
    simp only [infoRead, htotal]
    omega
  have hread' : (infoRead info).tag = rendition.tag := by
    simp only [infoRead, htag']
    omega
  rw [hread, decide_eq_true hpos] at hinfo
  refine ⟨_, hinfo, ⟨rfl, hpending, hread', hread, ?_, Nat.zero_le _, ?_⟩, rfl⟩
  · simp only [announce, describe, hreceived, ite_self]
  · refine ⟨bufferOf [], length_bufferOf [], ?_⟩
    simp only [announce, describe, himage, ite_self, take_zero]
    exact decoding_tbImageReset _

theorem undisturbed_ready (hfits : Fits rendition) (henv : Ample env) (hwhole : HoldsWhole rendition d)
    (hpending : media.pending = sequence) (himage : media.image = tbImageReset)
    (hreceived : media.received = 0) (hbudget : d.size ≤ media.budget) {inboxSize tag : ℕ}
    {index : ℤ} {data : ApiMedia} {inTime : Bool} {payloads : List (List UInt8)}
    {put : Option MediaEntry} (hstate : data.state = .ready)
    (hknows : Knows rendition none (some data))
    (hmedia : Phone.media inboxSize index 0 tag none (some data) inTime = .messages payloads put) :
    ReadyWith d ((deliver env sequence 0 payloads).foldl TbMedia.step media) := by
  have hlength := hfits.length
  have hlow := le_budget inboxSize
  have hhigh := budget_le inboxSize
  obtain ⟨info, hready, habout, hitem, rfl⟩ : ∃ info : MediaInfo, info.state = .ready ∧
      info.About rendition ∧ info.item.length ≤ 19 ∧
      payloads = chunks info rendition.bytes 0 (budget inboxSize) := by
    unfold Phone.media at hmedia
    simp only [hstate, reduceCtorEq, or_self, false_and, if_false, ne_eq, not_true_eq_false] at hmedia
    obtain ⟨htag, hbytes⟩ := hknows.answer data rfl hstate
    split at hmedia
    · next bytes renditionTag hsome hsome' =>
      split at hmedia
      · cases hmedia
      obtain ⟨rfl, -⟩ := MediaReply.messages.inj hmedia
      obtain rfl := hbytes bytes hsome
      refine ⟨_, rfl, fun _ => ⟨htag renditionTag hsome', rfl⟩, ?_, rfl⟩
      dsimp only
      split_ifs with hpattern
      · generalize data.item = item at hpattern
        cases item with
        | nil => exact Nat.zero_le _
        | cons unit rest =>
          simp only [messagePattern, Bool.and_eq_true, decide_eq_true_eq] at hpattern
          rw [length_cons]
          omega
      · exact Nat.zero_le _
    · cases hmedia
  obtain ⟨media₁, hinfo, h₁, hbudget₁⟩ := @awaits_announce env rendition media sequence d hfits hwhole
    info hready habout hpending himage hreceived
  have hpos := hwhole.length_pos
  have hshort := length_mediaInfo_le hitem
  set room := (budget inboxSize - (mediaInfo info).length - 7).toNat with hroom
  set slice := (rendition.bytes.drop 0).take room with hslice
  have hle : slice.length ≤ 8096 := by
    rw [hslice, length_take]
    omega
  have hslicepos : 0 < slice.length := by
    rw [hslice, length_take, length_drop]
    omega
  obtain ⟨media₂, hfeed, h₂, hbudget₂⟩ := h₁.feed henv hwhole (by rw [hbudget₁]; exact hbudget) room
  rw [← hslice] at hfeed h₂
  rw [Nat.zero_add] at h₂
  have hloop : chunks info rendition.bytes 0 (budget inboxSize) =
      (mediaInfo info ++ mediaData 0 slice) :: chunksLoop (mediaInfo info) rendition.bytes
        (budget inboxSize) (rendition.bytes.length + 1) false slice.length := by
    rw [chunks, chunksLoop, if_neg (by simp)]
    simp only [if_true, ← hroom, ← hslice, if_neg (length_pos_iff.mp hslicepos), Nat.zero_add]
    rw [if_neg (by omega)]
  obtain ⟨k, hk⟩ : ∃ k, (mediaInfo info ++ mediaData 0 slice).length = k + 1 + 1 := by
    refine ⟨(mediaInfo info ++ mediaData 0 slice).length - 2, ?_⟩
    rw [length_append, length_mediaInfo, length_mediaData]
    omega
  have hparse : ∀ final, TbMedia.parse env media
      (message 0 final (mediaInfo info ++ mediaData 0 slice)) = (.ok, media₂) := by
    intro final
    have hfirst := @parseLoop_mediaInfo env (k + 1) true media info (mediaData 0 slice)
    rw [hinfo] at hfirst
    have hrest := parseLoop_data_only (by omega) hle k false media₁ hfeed
    simp only [if_true, hrest] at hfirst
    rw [← hk] at hfirst
    exact hfirst
  have hstep := fun final => step_message hpending (hparse final)
  rw [hloop, deliver, foldl_cons]
  rcases Nat.lt_or_ge slice.length rendition.bytes.length with hlt | hge
  · have hrest : chunksLoop (mediaInfo info) rendition.bytes (budget inboxSize)
        (rendition.bytes.length + 1) false slice.length ≠ [] := by
      rw [chunksLoop, if_neg (by omega)]
      simp
    rw [isEmpty_eq_false_iff.mpr hrest, hstep]
    obtain ⟨h₃, hbudget₃⟩ := h₂.more env 0 (mediaInfo info ++ mediaData 0 slice)
    refine Awaits.deliver hfits henv hwhole (by omega) hhigh _ h₃ hlt ?_ (by omega)
    rw [hbudget₃, hbudget₂, hbudget₁]
    exact hbudget
  · have hrest : chunksLoop (mediaInfo info) rendition.bytes (budget inboxSize)
        (rendition.bytes.length + 1) false slice.length = [] := by
      rw [chunksLoop, if_pos ⟨rfl, hge⟩]
    have hend : slice.length = rendition.bytes.length := Nat.le_antisymm h₂.position_le hge
    rw [hend] at h₂
    rw [hrest, isEmpty_nil, hstep, deliver, foldl_nil]
    exact h₂.ready hwhole env 0 _

end Undisturbed

section Run

def runLog (s : TbMedia × TransferLog) (events : List (TbMediaEnv × MediaEvent)) :
    TbMedia × TransferLog := events.foldl stepLog s

theorem renders_of_run {rendition : Rendition} (hfits : Fits rendition)
    (events : List (TbMediaEnv × MediaEvent)) :
    ∀ {s : TbMedia × TransferLog}, (∀ event ∈ events, OfRendition rendition event) →
      Renders rendition s.1 s.2.chunks →
      Renders rendition (runLog s events).1 (runLog s events).2.chunks := by
  induction events with
  | nil =>
    intro s _ h
    exact h
  | cons event events ih =>
    intro s hevents h
    exact ih (fun e he => hevents e (mem_cons_of_mem _ he))
      (h.step hfits (hevents event mem_cons_self))

theorem renders_of_dropped {rendition : Rendition} (hfits : Fits rendition)
    {events : List (TbMediaEnv × MediaEvent)} {media : TbMedia} (log : TransferLog)
    (hdropped : Dropped media) (hevents : ∀ event ∈ events, OfRendition rendition event) :
    ∃ taken, Renders rendition (runLog (media, log) events).1 taken := by
  have hfst : ∀ (events : List (TbMediaEnv × MediaEvent)) (media : TbMedia) (log log' : TransferLog),
      (runLog (media, log) events).1 = (runLog (media, log') events).1 := by
    intro events
    induction events with
    | nil =>
      intro media log log'
      rfl
    | cons event events ih =>
      intro media log log'
      exact ih (media.step event) _ _
  rw [hfst events media log {}]
  exact ⟨_, renders_of_run hfits events hevents (renders_dropped rendition hdropped)⟩

/-- **The position of a transfer, and what it ends with**, after any calls and responses.

In transfer the decoder is a decoder that was reset and fed, as one stream, the bytes received: those of
the records taken since the last reset, at consecutive offsets and under the current tag; and at most two
requests from an offset are made after a start. Where the responses since nothing was received come from
the phone for one rendition, a view that is ready holds the image that an undisturbed transfer of the
rendition leaves in any view that has received nothing and has room for it. -/
theorem media_of_run (config : TbMediaConfig) (events : List (TbMediaEnv × MediaEvent))
    (henv : ∀ event ∈ events, event.1.Lawful) :
    let s := runLog (TbMedia.tbMediaInit config, {}) events
    (s.1.phase = .transfer → ∃ buffer, (∀ n, (buffer n).length = n) ∧
      .bad ∉ (feedChunk buffer tbImageReset (chunkBytes s.2.chunks)).1 ∧
      (feedChunk buffer tbImageReset (chunkBytes s.2.chunks)).2 = s.1.image ∧
      s.1.received = (chunkBytes s.2.chunks).length ∧ Consecutive 0 s.2.chunks ∧
      ∀ chunk ∈ s.2.chunks, chunk.tag = s.1.tag) ∧
    s.2.resumes ≤ 2 ∧
    ∀ (rendition : Rendition) (before after : List (TbMediaEnv × MediaEvent)), Fits rendition →
      events = before ++ after → Dropped (runLog (TbMedia.tbMediaInit config, {}) before).1 →
      (∀ event ∈ after, OfRendition rendition event) → s.1.phase = .ready →
      ∀ (env : TbMediaEnv) (media : TbMedia) (inboxSize tag : ℕ) (index : ℤ) (data : ApiMedia)
        (inTime : Bool) (payloads : List (List UInt8)) (put : Option MediaEntry), Ample env →
        media.image = tbImageReset → media.received = 0 → s.1.image.size ≤ media.budget →
        data.state = .ready → Knows rendition none (some data) →
        Phone.media inboxSize index 0 tag none (some data) inTime = .messages payloads put →
        ReadyWith s.1.image ((deliver env media.pending 0 payloads).foldl TbMedia.step media) := by
  intro s
  obtain ⟨hstream, hresumes⟩ := streamed_of_run henv (show events.foldl TbMedia.stepLog
    (TbMedia.tbMediaInit config, {}) = (s.1, s.2) from rfl)
  refine ⟨fun _ => ?_, hresumes, ?_⟩
  · obtain ⟨buffer, hbuffer, hdecoding⟩ := hstream.image
    obtain ⟨hbad, himage⟩ := hdecoding.feedChunk
    exact ⟨buffer, hbuffer, hbad, himage, hstream.received, hstream.consecutive, hstream.tag⟩
  · intro rendition before after hfits hsplit hdropped hafter hready env media inboxSize tag index data
      inTime payloads put hample himage hreceived hbudget hstate hknows hmedia
    have hs : s = runLog (runLog (TbMedia.tbMediaInit config, {}) before) after := by
      rw [show s = runLog (TbMedia.tbMediaInit config, {}) events from rfl, hsplit]
      exact List.foldl_append
    obtain ⟨taken, hrenders⟩ := renders_of_dropped hfits
      (runLog (TbMedia.tbMediaInit config, {}) before).2 hdropped hafter
    have hwhole := hrenders.whole (by rw [← hs]; exact hready)
    rw [← hs] at hwhole
    exact undisturbed_ready hfits hample hwhole rfl himage hreceived hbudget hstate hknows hmedia

end Run

section Sample

theorem lawful_default : TbMediaEnv.Lawful {} := by
  intro n pixels h
  obtain rfl := Option.some.inj h
  exact List.length_replicate

def answerOf (rendition : Rendition) : ApiMedia :=
  { state := .ready, renditionTag := some rendition.tag, renditionBytes := some rendition.bytes }

def infoOf (rendition : Rendition) : MediaInfo :=
  ⟨.ready, 0, 1, 0, rendition.tag, rendition.bytes.length, 0, []⟩

/-- The messages from an offset, for an inbox of 352 bytes. -/
def payloadsFrom (rendition : Rendition) (offset : ℕ) : List (List UInt8) :=
  chunks (infoOf rendition) rendition.bytes offset (budget 352)

section

variable {rendition : Rendition} (htag : uint32 rendition.tag = rendition.tag)
include htag

theorem knows_answerOf : Knows rendition none (some (answerOf rendition)) := by
  refine ⟨nofun, ?_⟩
  rintro data ⟨⟩ _
  refine ⟨?_, ?_⟩
  · rintro tag ⟨⟩
    exact htag
  · rintro bytes ⟨⟩
    rfl

theorem media_answerOf (hlength : 22 ≤ rendition.bytes.length) {offset : ℕ}
    (hoffset : offset < rendition.bytes.length) :
    Phone.media 352 0 offset rendition.tag none (some (answerOf rendition)) true =
      .messages (payloadsFrom rendition offset) (some ⟨infoOf rendition, rendition.bytes⟩) := by
  have hsame : mediaOffset offset rendition.tag (infoOf rendition) rendition.bytes = offset := by
    unfold mediaOffset
    split_ifs with hresumed
    · rfl
    · by_contra hne
      exact hresumed ⟨Ne.symm hne, rfl, hoffset⟩
  simp only [Phone.media, answerOf, reduceCtorEq, or_self, false_and, if_false, ne_eq,
    not_true_eq_false, Nat.not_lt.mpr hlength, htag, Option.getD_none, Bool.false_eq_true]
  exact congrArg (fun offset => MediaReply.messages
    (chunks (infoOf rendition) rendition.bytes offset (budget 352)) _) hsame

theorem fromPhone_answerOf (hlength : 22 ≤ rendition.bytes.length) {offset : ℕ}
    (hoffset : offset < rendition.bytes.length) (index : ℕ) (final : Bool) :
    FromPhone rendition (message index final ((payloadsFrom rendition offset).headD [])) := by
  refine Or.inr (Or.inr ⟨352, 0, offset, rendition.tag, none, some (answerOf rendition), true,
    payloadsFrom rendition offset, _, knows_answerOf htag, media_answerOf htag hlength hoffset, ?_⟩)
  simp [message, payloadsFrom, chunks, chunksLoop]

end

/-- Eight rows of 32 bytes, as two literals of 128 bytes. -/
def literals : Rendition where
  tag := 7
  bytes := [0x54, 0x42, 1, 1, 0, 1, 0, 1, 8, 0, 0, 1, 8, 0, 7, 0, 0, 0, 0x27, 0xE2, 0x38, 0x08, 0xC0] ++
    0x7F :: List.replicate 128 0xAA ++ 0x7F :: List.replicate 128 0x55

/-- The request is lost after its first message, and the view goes on from there. -/
def resumedTransfer : List (TbMediaEnv × MediaEvent) :=
  [({}, .bind [0x61] [0x31] [0x32] tbMediaFlagImage 1), ({ submitted := ⟨1, .timeout⟩ }, .load),
    ({}, .completed 1 (message 0 false ((payloadsFrom literals 0).headD []))),
    ({ submitted := ⟨2, .timeout⟩ }, .completed 1 { outcome := .timeout }),
    ({}, .completed 2 (message 0 true ((payloadsFrom literals 231).headD [])))]

theorem media_of_run_resumed :
    let s := runLog (TbMedia.tbMediaInit pixelConfig, {}) resumedTransfer
    s.1.phase = .ready ∧ s.2.resumes = 1 ∧ (payloadsFrom literals 0).length = 2 ∧
      ReadyWith s.1.image ((deliver {} pixelLoading.pending 0 (payloadsFrom literals 0)).foldl
        TbMedia.step pixelLoading) := by
  have hlength : literals.bytes.length = 281 := by decide +kernel
  have hphone : ∀ event ∈ resumedTransfer, OfRendition literals event := by
    intro event hevent
    simp only [resumedTransfer, List.mem_cons, List.not_mem_nil, or_false] at hevent
    rcases hevent with rfl | rfl | rfl | rfl | rfl
    · exact lawful_default
    · exact lawful_default
    · exact ⟨lawful_default, fromPhone_answerOf rfl (by omega) (by omega) 0 false⟩
    · exact ⟨lawful_default, Or.inl (by decide)⟩
    · exact ⟨lawful_default, fromPhone_answerOf rfl (by omega) (by omega) 0 true⟩
  have hevents : ∀ event ∈ resumedTransfer, event.1.Lawful := by
    intro event hevent
    simp only [resumedTransfer, List.mem_cons, List.not_mem_nil, or_false] at hevent
    rcases hevent with rfl | rfl | rfl | rfl | rfl <;> exact lawful_default
  obtain ⟨-, -, hwhole⟩ := media_of_run pixelConfig resumedTransfer hevents
  obtain ⟨hready, hresumes, hsize⟩ :
      (runLog (TbMedia.tbMediaInit pixelConfig, {}) resumedTransfer).1.phase = .ready ∧
        (runLog (TbMedia.tbMediaInit pixelConfig, {}) resumedTransfer).2.resumes = 1 ∧
        (runLog (TbMedia.tbMediaInit pixelConfig, {}) resumedTransfer).1.image.size ≤
          pixelLoading.budget := by
    decide +kernel
  refine ⟨hready, hresumes, by decide +kernel, ?_⟩
  exact hwhole literals [] resumedTransfer ⟨by decide, by omega⟩ rfl
    ⟨rfl, rfl, by decide, by decide⟩ hphone hready {} pixelLoading 352 7 0 (answerOf literals) true
    (payloadsFrom literals 0) _ ⟨lawful_default, fun n => by simp⟩ (by decide) (by decide)
    hsize rfl (knows_answerOf rfl) (media_answerOf rfl (by omega) (by omega))

end Sample

end Link
