import TeleBezel.Image.Cursor
import TeleBezel.Lib.Transition
import TeleBezel.Watch.Media

/-!
# A ready image was verified

The view is ready once its buffer is full and the announced total is received; the checksum is
compared by the decoder, when the buffer is full and no operation is in progress. The two differ
on one kind of stream: one that stops inside a literal exactly where the image is full. On every
other stream a ready image was compared with its checksum.
-/

open List

namespace Watch

open Word Transition

/-- A ready image fills its buffer, has no operation in progress and has its checksum. -/
def Verified (media : TbMedia) : Prop :=
  media.phase = .ready → media.image.pixels ≠ none ∧ media.image.filled = media.image.size ∧
    media.image.op = .none ∧ CrcMatches media.image

def recordData : ℕ → TbCursor → List UInt8
  | 0, _ => []
  | fuel + 1, cursor =>
    match tbCodecNext cursor with
    | none => []
    | some (type, body, rest) =>
      (if type = tbRecordMediaData then ((tbCodecMediaData body).map (·.data)).getD [] else []) ++
        recordData fuel rest

/-- Every record of the data starts where the bytes received so far end. -/
def dataInPlace : ℕ → ℕ → TbCursor → Bool
  | 0, _, _ => true
  | fuel + 1, received, cursor =>
    match tbCodecNext cursor with
    | none => true
    | some (type, body, rest) =>
      match if type = tbRecordMediaData then tbCodecMediaData body else none with
      | none => dataInPlace fuel received rest
      | some record => record.offset = received &&
          dataInPlace fuel (uint32 (received + record.data.length : ℕ)) rest

def firstInfo (response : TbResponse) : Option TbMediaInfoRecord :=
  if response.index = 0 then
    match tbCodecNext response.payload with
    | some (type, body, _) => if type = tbRecordMediaInfo then tbCodecMediaInfo body else none
    | none => none
  else none

def announcesOther (media : TbMedia) (response : TbResponse) : Bool :=
  match firstInfo response with
  | some record => record.state = 0 && record.tag ≠ media.tag
  | none => false

def imageBefore (media : TbMedia) (response : TbResponse) : TbImageDecoder :=
  if announcesOther media response then tbImageReset else media.image

def receivedBefore (media : TbMedia) (response : TbResponse) : ℕ :=
  if announcesOther media response then 0 else media.received

def announcedTotal (media : TbMedia) (response : TbResponse) : ℕ :=
  match firstInfo response with
  | some record => record.total
  | none => media.total

def announcedTag (media : TbMedia) (response : TbResponse) : ℕ :=
  match firstInfo response with
  | some record => record.tag
  | none => media.tag

def dataOf (response : TbResponse) : List UInt8 :=
  recordData response.payload.length response.payload

/-- **The stream stops inside a literal where the image is full**: after the data of the
response, counted from the decoder it goes on with, a literal wants more bytes, no room is left
and the announced total is received. Data out of place or of another tag is not counted: the view
refuses the response. -/
def StopsInLiteral (media : TbMedia) (response : TbResponse) : Prop :=
  (∃ c ∈ cursorAfter (imageBefore media response) (dataOf response),
      c.1 = announcedTag media response ∧ c.2.op = .literal ∧ c.2.room = 0) ∧
    uint32 (receivedBefore media response + (dataOf response).length : ℕ) =
      uint32 (announcedTotal media response) ∧
    dataInPlace response.payload.length (receivedBefore media response) response.payload = true

instance (media : TbMedia) (response : TbResponse) : Decidable (StopsInLiteral media response) :=
  inferInstanceAs (Decidable (_ ∧ _))

/-- No response stops inside a literal. -/
def Clean (media : TbMedia) : TbMediaEnv × MediaEvent → Prop
  | (_, .completed sequence response) =>
    sequence = media.pending → response.outcome = .response → response.result = tbResultOk →
      response.final = true → ¬ StopsInLiteral media response
  | _ => True

/-- A sound decoder whose header, once read, names the tag. -/
structure SoundFor (d : TbImageDecoder) (tag : ℕ) : Prop extends d.Sound where
  tag : d.headerReady = true → d.header.tag = tag

theorem soundFor_tbImageReset (tag : ℕ) : SoundFor tbImageReset tag :=
  ⟨sound_tbImageReset, fun h => absurd h (by decide)⟩

theorem SoundFor.kept {d d' : TbImageDecoder} {tag : ℕ} (h : SoundFor d tag) (hsound : d'.Sound)
    (hkept : d'.headerReady = true → d.headerReady = true ∧ d'.header = d.header) :
    SoundFor d' tag :=
  ⟨hsound, fun hready => by rw [(hkept hready).2, h.tag (hkept hready).1]⟩

namespace TbMedia

structure Sound (media : TbMedia) : Prop where
  image : SoundFor media.image media.tag
  ready : media.phase = .ready →
    media.image.pixels ≠ none ∧ media.image.filled = media.image.size ∧ media.image.op = .none

theorem Sound.verified {media : TbMedia} (h : media.Sound) : Verified media := by
  intro hready
  obtain ⟨hpixels, hfull, hop⟩ := h.ready hready
  have hheader : media.image.headerReady = true := by
    by_contra hnot
    exact hpixels (h.image.collecting (by simpa using hnot)).1
  exact ⟨hpixels, hfull, hop, h.image.compared hheader hfull hop⟩

theorem Sound.of_phase_ne {media : TbMedia} (himage : SoundFor media.image media.tag)
    (hphase : media.phase ≠ .ready) : media.Sound :=
  ⟨himage, fun h => absurd h hphase⟩

section Records

variable {env : TbMediaEnv} {media media' : TbMedia}

theorem feedLoop_sound (fuel : ℕ) :
    ∀ {media media' : TbMedia} {data : List UInt8}, SoundFor media.image media.tag →
      feedLoop env fuel media data = (.ok, media', []) →
      media' = { media with image := media'.image } ∧ SoundFor media'.image media.tag ∧
        ∀ more, cursorAfter media'.image more = cursorAfter media.image (data ++ more) := by
  induction fuel with
  | zero =>
    intro media media' data h hfeed
    cases hfeed
    exact ⟨rfl, h, fun more => rfl⟩
  | succ fuel ih =>
    intro media media' data h hfeed
    rw [feedLoop] at hfeed
    split_ifs at hfeed with hempty
    · cases hfeed
      exact ⟨rfl, h, fun more => rfl⟩
    · obtain ⟨hgoes, hheader⟩ := tbImageFeed_sound h.toSound data
      simp only at hfeed
      generalize tbImageFeed media.image data = fed at *
      cases hstatus : fed.status with
      | bad =>
        rw [hstatus] at hfeed
        cases hfeed
      | headerReady =>
        rw [hstatus] at hfeed
        simp only at hfeed
        split_ifs at hfeed with hwrong
        · cases hfeed
        · split at hfeed
          · cases hfeed
          · rename_i pixels _
            obtain ⟨hsound, hcursor⟩ := hheader hstatus pixels
            have htag := not_not.mp (not_or.mp hwrong).1
            obtain ⟨hmedia, himage, hrest⟩ := ih ⟨hsound, fun _ => htag⟩ hfeed
            refine ⟨hmedia, himage, fun more => ?_⟩
            rw [hrest, hcursor, ← append_assoc, take_append_drop]
      | done =>
        rw [hstatus] at hfeed
        obtain ⟨rfl, -⟩ := Prod.mk.inj (Prod.mk.inj hfeed).2
        obtain ⟨hsound, -, hkept, hcursor⟩ := hgoes (Or.inr hstatus)
        exact ⟨rfl, h.kept hsound hkept, hcursor⟩
      | more =>
        rw [hstatus] at hfeed
        obtain ⟨hsound, hused, hkept, hcursor⟩ := hgoes (Or.inl hstatus)
        simp only [hused, drop_length] at hfeed
        obtain ⟨hmedia, himage, hrest⟩ := ih (by exact h.kept hsound hkept) hfeed
        exact ⟨hmedia, himage, fun more => by rw [hrest, nil_append, hcursor]⟩

/-- What a record of the data leaves: the view in transfer, the decoder and the bytes received
moved on by its data. -/
structure Fed (media : TbMedia) (data : List UInt8) (media' : TbMedia) : Prop where
  image : SoundFor media'.image media'.tag
  tag : media'.tag = media.tag
  phase : media'.phase = media.phase
  total : media'.total = media.total
  received : uint32 media'.received = uint32 (media.received + data.length : ℕ)
  cursor : ∀ more, cursorAfter media'.image more = cursorAfter media.image (data ++ more)

theorem uint32_uint32_add (a b : ℕ) : uint32 (uint32 a + b : ℕ) = uint32 (a + b : ℕ) := by
  simp only [uint32]
  omega

theorem Fed.trans {media₁ media₂ media₃ : TbMedia} {data data' : List UInt8}
    (h : Fed media₁ data media₂) (h' : Fed media₂ data' media₃) : Fed media₁ (data ++ data') media₃ where
  image := h'.image
  tag := h'.tag.trans h.tag
  phase := h'.phase.trans h.phase
  total := h'.total.trans h.total
  received := by
    rw [h'.received, ← uint32_uint32_add, h.received, uint32_uint32_add, length_append,
      Nat.add_assoc]
  cursor more := by rw [h'.cursor, h.cursor, append_assoc]

theorem feed_sound {record : TbMediaDataRecord} (h : SoundFor media.image media.tag)
    (hfeed : feed env media record = (.ok, media')) :
    media.phase = .transfer ∧ record.offset = media.received ∧
      media'.received = uint32 (media.received + record.data.length : ℕ) ∧
      Fed media record.data media' := by
  unfold feed at hfeed
  split_ifs at hfeed with hrefused
  · cases hfeed
  · rw [not_or, not_not, not_not] at hrefused
    refine ⟨hrefused.1, hrefused.2, ?_⟩
    rcases hloop : feedLoop env record.data.length media record.data with ⟨result, media₁, rest⟩
    rw [hloop] at hfeed
    cases result with
    | ok =>
      simp only at hfeed
      split_ifs at hfeed with hrest
      · cases hfeed
      · rw [not_not] at hrest
        subst hrest
        obtain ⟨hmedia, himage, hcursor⟩ := feedLoop_sound _ h hloop
        cases hfeed
        have hreceived : media₁.received = media.received := by rw [hmedia]
        have htag : media₁.tag = media.tag := by rw [hmedia]
        refine ⟨by simp only [hreceived], by simpa only [htag] using himage, htag, ?_, ?_, ?_, hcursor⟩
        · rw [hmedia]
        · rw [hmedia]
        · simp only [hreceived]
          exact uint32_uint32_add _ 0
    | protocol => cases hfeed
    | corrupt => cases hfeed
    | memory => cases hfeed

theorem feedLoop_ne_protocol (env : TbMediaEnv) (fuel : ℕ) :
    ∀ (media : TbMedia) (data : List UInt8), (feedLoop env fuel media data).1 ≠ .protocol := by
  induction fuel with
  | zero => intro media data; simp [feedLoop]
  | succ fuel ih =>
    intro media data
    rw [feedLoop]
    split_ifs
    · simp
    · simp only
      split
      · simp
      · split_ifs
        · simp
        · split
          · simp
          · exact ih _ _
      · simp
      · exact ih _ _

theorem eq_of_feed_protocol {record : TbMediaDataRecord}
    (hfeed : feed env media record = (.protocol, media')) : media' = media := by
  unfold feed at hfeed
  split_ifs at hfeed with hrefused
  · exact (Prod.mk.inj hfeed).2.symm
  · have hne := feedLoop_ne_protocol env record.data.length media record.data
    generalize feedLoop env record.data.length media record.data = looped at hne hfeed
    obtain ⟨result, media₁, rest⟩ := looped
    cases result with
    | ok =>
      simp only at hfeed
      split_ifs at hfeed <;> cases hfeed
    | protocol => exact absurd rfl hne
    | corrupt => cases hfeed
    | memory => cases hfeed

theorem parseLoop_sound (fuel : ℕ) :
    ∀ {media media' : TbMedia} {cursor : TbCursor}, SoundFor media.image media.tag →
      parseLoop env fuel false media cursor = (.ok, media') →
      Fed media (recordData fuel cursor) media' ∧
        dataInPlace fuel media.received cursor = true := by
  induction fuel with
  | zero =>
    intro media media' cursor h hparse
    cases hparse
    exact ⟨⟨h, rfl, rfl, rfl, rfl, fun more => rfl⟩, rfl⟩
  | succ fuel ih =>
    intro media media' cursor h hparse
    rw [parseLoop] at hparse
    split_ifs at hparse with hempty
    · cases hparse
      subst hempty
      exact ⟨⟨h, rfl, rfl, rfl, rfl, fun more => rfl⟩, rfl⟩
    · rw [recordData, dataInPlace]
      rcases hnext : tbCodecNext cursor with _ | ⟨type, body, rest⟩
      · rw [hnext] at hparse
        cases hparse
      · rw [hnext] at hparse
        simp only [and_false, if_false] at hparse
        split_ifs at hparse with hdata
        · rcases hbody : tbCodecMediaData body with _ | record
          · rw [hbody] at hparse
            cases hparse
          · rw [hbody] at hparse
            rcases hfeed : feed env media record with ⟨result, media₁⟩
            simp only [hfeed] at hparse
            cases result with
            | ok =>
              obtain ⟨-, hoffset, hreceived, hfed⟩ := feed_sound h hfeed
              obtain ⟨hrest, hplace⟩ := ih hfed.image hparse
              rw [hreceived] at hplace
              exact ⟨by simpa [hdata, hbody] using hfed.trans hrest,
                by simpa [hdata, hbody, hoffset] using hplace⟩
            | protocol | corrupt | memory => cases hparse
        · cases hparse

theorem soundFor_announce (record : TbMediaInfoRecord) (h : SoundFor media.image media.tag) :
    SoundFor (media.announce record).image (media.announce record).tag := by
  simp only [announce]
  split_ifs with hother
  · exact soundFor_tbImageReset _
  · rw [not_ne_iff.mp hother]
    exact h

theorem info_sound {record : TbMediaInfoRecord} (h : SoundFor media.image media.tag)
    (hinfo : info env media record = (true, media')) :
    SoundFor media'.image media'.tag ∧ media'.phase ≠ .ready ∧
      (media'.phase = .transfer → record.state = 0 ∧ media'.tag = record.tag ∧
        media'.total = record.total ∧ media'.image = (if record.tag ≠ media.tag then tbImageReset else media.image) ∧
        media'.received = (if record.tag ≠ media.tag then 0 else media.received)) := by
  have hwait : ∀ media : TbMedia, SoundFor media.image media.tag →
      SoundFor (waitFor env media record.retryAfter).image (waitFor env media record.retryAfter).tag ∧
        (waitFor env media record.retryAfter).phase ≠ .ready ∧
        (waitFor env media record.retryAfter).phase ≠ .transfer := by
    intro media himage
    unfold waitFor
    split_ifs <;> exact ⟨himage, by simp, by simp⟩
  have hdescribe : SoundFor (media.describe record).image (media.describe record).tag := h
  unfold info at hinfo
  simp only at hinfo
  split at hinfo
  · rename_i hstate
    obtain ⟨-, rfl⟩ := Prod.mk.inj hinfo
    refine ⟨?_, by simp [announce], fun _ => ⟨hstate, rfl, rfl, rfl, rfl⟩⟩
    exact soundFor_announce record hdescribe
  · obtain ⟨-, rfl⟩ := Prod.mk.inj hinfo
    obtain ⟨himage, hready, htransfer⟩ := hwait _ hdescribe
    exact ⟨himage, hready, fun hphase => absurd hphase htransfer⟩
  · obtain ⟨-, rfl⟩ := Prod.mk.inj hinfo
    obtain ⟨himage, hready, htransfer⟩ := hwait _ hdescribe
    exact ⟨himage, hready, fun hphase => absurd hphase htransfer⟩
  all_goals
    obtain ⟨-, rfl⟩ := Prod.mk.inj hinfo
    exact ⟨hdescribe, by simp, by simp⟩

theorem image_info_sound (env : TbMediaEnv) (record : TbMediaInfoRecord) (h : SoundFor media.image media.tag) :
    SoundFor (info env media record).2.image (info env media record).2.tag := by
  rcases hinfo : info env media record with ⟨_ | _, media₁⟩
  · -- a total of zero is refused after the image was announced
    have hannounce := soundFor_announce record h
    unfold info at hinfo
    simp only at hinfo
    split at hinfo <;> first
      | (obtain ⟨-, rfl⟩ := Prod.mk.inj hinfo; exact hannounce)
      | exact absurd (Prod.mk.inj hinfo).1 (by decide)
  · exact (info_sound h hinfo).1

theorem parseLoop_protocol_sound (fuel : ℕ) :
    ∀ {first : Bool} {media media' : TbMedia} {cursor : TbCursor}, SoundFor media.image media.tag →
      parseLoop env fuel first media cursor = (.protocol, media') → SoundFor media'.image media'.tag := by
  induction fuel with
  | zero =>
    intro first media media' cursor h hparse
    cases hparse
  | succ fuel ih =>
    intro first media media' cursor h hparse
    rw [parseLoop] at hparse
    split_ifs at hparse with hempty
    · cases hparse
    · rcases hnext : tbCodecNext cursor with _ | ⟨type, body, rest⟩
      · rw [hnext] at hparse
        cases hparse
        exact h
      · simp only [hnext] at hparse
        split_ifs at hparse with hfirst hdata
        · rcases hbody : tbCodecMediaInfo body with _ | record
          · simp only [hbody] at hparse
            cases hparse
            exact h
          · have himage := image_info_sound env record h
            simp only [hbody] at hparse
            rcases hinfo : info env media record with ⟨_ | _, media₁⟩
            · simp only [hinfo] at hparse himage
              cases hparse
              exact himage
            · simp only [hinfo] at hparse himage
              exact ih himage hparse
        · rcases hbody : tbCodecMediaData body with _ | record
          · simp only [hbody] at hparse
            cases hparse
            exact h
          · rcases hfeed : feed env media record with ⟨result, media₁⟩
            simp only [hbody, hfeed] at hparse
            cases result with
            | ok => exact ih (feed_sound h hfeed).2.2.2.image hparse
            | protocol =>
              cases hparse
              rw [eq_of_feed_protocol hfeed]
              exact h
            | corrupt | memory => cases hparse
        · cases hparse
          exact h

/-- **What the records of a response leave**: a sound decoder, ready only if nothing changed, and
in transfer moved on by the data of the response from the decoder it goes on with. -/
theorem parse_sound {response : TbResponse} (h : SoundFor media.image media.tag)
    (hparse : parse env media response = (.ok, media')) :
    SoundFor media'.image media'.tag ∧
      (media'.phase = .ready → media.phase = .ready ∧ media'.image = media.image) ∧
      (media'.phase = .transfer → media'.total = announcedTotal media response ∧
        media'.tag = announcedTag media response ∧
        uint32 media'.received =
          uint32 (receivedBefore media response + (dataOf response).length : ℕ) ∧
        dataInPlace response.payload.length (receivedBefore media response) response.payload = true ∧
        ∀ more, cursorAfter media'.image more =
          cursorAfter (imageBefore media response) (dataOf response ++ more)) := by
  unfold parse at hparse
  rcases hlen : response.payload.length with _ | fuel
  · -- an empty payload changes nothing
    have hnil : response.payload = [] := length_eq_zero_iff.mp hlen
    have hinfo : firstInfo response = none := by
      simp [firstInfo, hnil, tbCodecNext, take]
    rw [hlen] at hparse
    cases hparse
    simp [announcedTotal, announcedTag, receivedBefore, imageBefore, announcesOther, hinfo, dataOf,
      hlen, recordData, dataInPlace, h]
  · have hne : response.payload ≠ [] := by
      intro hnil
      rw [hnil] at hlen
      cases hlen
    rw [hlen, parseLoop, if_neg hne] at hparse
    rcases hnext : tbCodecNext response.payload with _ | ⟨type, body, rest⟩
    · rw [hnext] at hparse
      cases hparse
    · have hdata : dataOf response =
          (if type = tbRecordMediaData then ((tbCodecMediaData body).map (·.data)).getD [] else []) ++
            recordData fuel rest := by
        rw [dataOf, hlen, recordData, hnext]
      simp only [hnext] at hparse
      split_ifs at hparse with hfirst hrecord
      · -- the response starts with an information
        obtain ⟨rfl, hindex⟩ := hfirst
        have hinfo : firstInfo response = tbCodecMediaInfo body := by
          simp [firstInfo, hnext, of_decide_eq_true hindex]
        have hdata' : dataOf response = recordData fuel rest := by
          rw [hdata, if_neg (by decide), nil_append]
        rcases hbody : tbCodecMediaInfo body with _ | record
        · rw [hbody] at hparse
          cases hparse
        · rcases hrecord : info env media record with ⟨_ | _, media₁⟩
          · simp only [hbody, hrecord] at hparse
            cases hparse
          · simp only [hbody, hrecord] at hparse
            obtain ⟨himage, hready, htransfer⟩ := info_sound h hrecord
            obtain ⟨hfed, hplace⟩ := parseLoop_sound fuel himage hparse
            refine ⟨hfed.image, fun hphase => absurd (hfed.phase.symm.trans hphase) hready,
              fun hphase => ?_⟩
            obtain ⟨hstate, htag, htotal, himage₁, hreceived₁⟩ :=
              htransfer (hfed.phase.symm.trans hphase)
            have hother : announcesOther media response = decide (record.tag ≠ media.tag) := by
              simp [announcesOther, hinfo, hbody, hstate]
            have hreceived : media₁.received = receivedBefore media response := by
              rw [hreceived₁, receivedBefore, hother]
              simp
            refine ⟨by rw [hfed.total, htotal, announcedTotal, hinfo, hbody],
              by rw [hfed.tag, htag, announcedTag, hinfo, hbody], ?_, ?_, fun more => ?_⟩
            · rw [hfed.received, hreceived, hdata']
            · rw [dataInPlace, hnext]
              simpa [hreceived, tbRecordMediaInfo, tbRecordMediaData] using hplace
            · rw [hfed.cursor, himage₁, imageBefore, hother, hdata']
              simp
      · -- the response starts with data
        subst hrecord
        have hinfo : firstInfo response = none := by
          simp [firstInfo, hnext, tbRecordMediaData, tbRecordMediaInfo]
        have hother : announcesOther media response = false := by
          simp [announcesOther, hinfo]
        rcases hbody : tbCodecMediaData body with _ | record
        · rw [hbody] at hparse
          cases hparse
        · rcases hfeed : feed env media record with ⟨result, media₁⟩
          simp only [hbody, hfeed] at hparse
          cases result with
          | ok =>
            obtain ⟨htransfer, hoffset, hmoved, hfed₁⟩ := feed_sound h hfeed
            obtain ⟨hfed₂, hplace⟩ := parseLoop_sound fuel hfed₁.image hparse
            have hfed := hfed₁.trans hfed₂
            have hreceived : receivedBefore media response = media.received := by
              rw [receivedBefore, hother]
              rfl
            have hdata' : dataOf response = record.data ++ recordData fuel rest := by
              rw [hdata, if_pos rfl, hbody]
              rfl
            refine ⟨hfed.image, fun hphase => ?_, fun _ => ⟨?_, ?_, ?_, ?_, fun more => ?_⟩⟩
            · rw [hfed.phase, htransfer] at hphase
              cases hphase
            · rw [hfed.total, announcedTotal, hinfo]
            · rw [hfed.tag, announcedTag, hinfo]
            · rw [hfed.received, hreceived, hdata']
            · rw [dataInPlace, hnext, hreceived]
              rw [hmoved] at hplace
              simpa [hbody, hoffset] using hplace
            · rw [hfed.cursor, imageBefore, hother, hdata']
              rfl
          | protocol | corrupt | memory => cases hparse
      · cases hparse

end Records

section Calls

variable (env : TbMediaEnv) {media : TbMedia}

theorem soundFor_submit (h : SoundFor media.image media.tag) (offset : ℕ) :
    SoundFor (submit env media offset).image (submit env media offset).tag := by
  unfold submit
  simp only
  split_ifs <;> exact h

theorem phase_submit (media : TbMedia) (offset : ℕ) :
    (submit env media offset).phase = media.phase ∨ (submit env media offset).phase = .error := by
  unfold submit
  simp only
  split_ifs
  · exact Or.inr rfl
  · exact Or.inl rfl

theorem Sound.submit (himage : SoundFor media.image media.tag) (hphase : media.phase ≠ .ready) (offset : ℕ) :
    (submit env media offset).Sound := by
  refine Sound.of_phase_ne (soundFor_submit env himage offset) ?_
  rcases phase_submit env media offset with h | h <;> rw [h]
  · exact hphase
  · decide

theorem Sound.changed (h : media.Sound) : media.changed.Sound := ⟨h.image, h.ready⟩

theorem sound_start (media : TbMedia) : (start env media).Sound := by
  unfold start
  simp only
  split_ifs
  · exact Sound.changed (Sound.of_phase_ne (soundFor_tbImageReset _) (by simp))
  · exact Sound.changed (Sound.submit env (soundFor_tbImageReset _) (by simp) 0)

theorem sound_fail (himage : SoundFor media.image media.tag) (error : ℤ) (outcome : TbRequestOutcome) :
    (fail env media error outcome).Sound := by
  unfold fail
  simp only
  split_ifs with hresume
  · refine Sound.changed (Sound.submit env ?_ ?_ _)
    · exact himage
    · rw [hresume.2.1]
      decide
  · exact Sound.changed (Sound.of_phase_ne himage (by simp))
  · exact Sound.changed (Sound.of_phase_ne himage (by simp))

theorem sound_corrupt (media : TbMedia) : (corrupt env media).Sound := by
  unfold corrupt
  simp only
  split_ifs
  · exact sound_start env _
  · exact Sound.changed (Sound.of_phase_ne (soundFor_tbImageReset _) (by simp))

theorem soundFor_abandon (h : SoundFor media.image media.tag) (sequence : ℕ)
    (response : TbResponse) :
    SoundFor (media.abandon sequence response).image (media.abandon sequence response).tag := by
  unfold abandon
  split_ifs <;> exact h

theorem sound_finish {response : TbResponse} (h : media.Sound)
    (hclean : response.final = true → media.phase = .transfer → media.received = media.total →
      ¬ (media.image.op = .literal ∧ media.image.filled = media.image.size)) :
    (finish env media response).Sound := by
  unfold finish
  simp only
  split_ifs with hfinal hphase hfull
  · obtain ⟨hpixels, hfilled, htotal⟩ := hfull
    refine Sound.changed ⟨h.image, fun _ => ⟨hpixels, hfilled, ?_⟩⟩
    rcases h.image.within.literal_of_full hfilled with hnone | hliteral
    · exact hnone
    · exact absurd ⟨hliteral, hfilled⟩ (hclean hfinal hphase htotal)
  · exact sound_fail env h.image _ _
  · exact Sound.changed ⟨h.image, h.ready⟩
  · exact h.changed

theorem sound_completed (h : media.Sound) (sequence : ℕ) (response : TbResponse)
    (hclean : Clean media (env, .completed sequence response)) :
    (completed env media sequence response).Sound := by
  unfold completed
  split_ifs with hignored hfailed
  · exact h
  · exact sound_fail env (soundFor_abandon h.image _ _) _ _
  · rw [not_or, not_not] at hignored hfailed
    rw [not_not] at hfailed
    rcases hparse : parse env media response with ⟨result, media₁⟩
    cases result with
    | ok =>
      obtain ⟨himage, hready, htransfer⟩ := parse_sound h.image hparse
      refine sound_finish env ⟨himage, fun hphase => ?_⟩ fun hfinal hphase htotal hstop => ?_
      · obtain ⟨hphase₀, himage₀⟩ := hready hphase
        rw [himage₀]
        exact h.ready hphase₀
      · -- the count of the decoder is the count of the stream
        obtain ⟨htotal', htag, hreceived, hplace, hcursor⟩ := htransfer hphase
        refine hclean hignored.1 hfailed.1 hfailed.2 hfinal
          ⟨⟨(media₁.tag, cursorOf media₁.image), ?_, htag, hstop.1, ?_⟩, ?_, hplace⟩
        · have hheader : media₁.image.headerReady = true := by
            by_contra hnot
            have := (himage.collecting (by simpa using hnot)).2.2.1
            rw [hstop.1] at this
            cases this
          have := hcursor []
          rw [append_nil] at this
          rw [← this, cursorAfter, if_pos hheader, himage.tag hheader]
          rfl
        · simp only [cursorOf, hstop.2, Nat.sub_self]
        · rw [← hreceived, htotal, htotal']
    | corrupt => exact sound_corrupt env _
    | memory => exact Sound.changed (Sound.of_phase_ne (soundFor_tbImageReset _) (by simp))
    | protocol =>
      have himage := parseLoop_protocol_sound _ h.image hparse
      exact sound_fail env (soundFor_abandon himage _ _) _ _

theorem sound_tbMediaRelease (media : TbMedia) : media.tbMediaRelease.Sound := by
  unfold tbMediaRelease
  simp only
  split_ifs with hphase
  · exact Sound.of_phase_ne (soundFor_tbImageReset _) (by simp)
  · exact Sound.of_phase_ne (soundFor_tbImageReset _) fun hready => hphase (Or.inr (Or.inr (Or.inr hready)))

theorem initialPhase_ne_ready (flags : ℕ) : initialPhase flags ≠ .ready := by
  unfold initialPhase
  split_ifs <;> decide

theorem sound_tbMediaLoad (h : media.Sound) : (tbMediaLoad env media).Sound := by
  unfold tbMediaLoad
  split_ifs
  · exact h
  · exact h
  · exact h
  · exact sound_start env _

theorem sound_tbMediaShow (h : media.Sound) (index : ℕ) : (tbMediaShow env media index).Sound := by
  unfold tbMediaShow
  split_ifs
  · exact h
  all_goals
    refine Sound.changed (sound_tbMediaLoad env (Sound.of_phase_ne ?_ (by simp)))
    exact (sound_tbMediaRelease media).image

theorem step_sound (h : media.Sound) (event : TbMediaEnv × MediaEvent)
    (hclean : Clean media event) : (media.step event).Sound := by
  obtain ⟨env, event⟩ := event
  cases event with
  | bind account chat message flags count =>
    simp only [step, tbMediaBind]
    split
    · exact h
    · refine Sound.changed (Sound.of_phase_ne ?_ (initialPhase_ne_ready flags))
      exact (sound_tbMediaRelease media).image
  | load => exact sound_tbMediaLoad env h
  | «show» index => exact sound_tbMediaShow env h index
  | reveal =>
    simp only [step, tbMediaReveal]
    split_ifs
    · exact h
    · exact sound_start env _
  | retry =>
    simp only [step, tbMediaRetry]
    split_ifs
    · exact h
    · exact sound_start env _
  | timer =>
    simp only [step, tbMediaTimer]
    split_ifs
    · exact h
    · exact ⟨h.image, h.ready⟩
    · refine Sound.changed (Sound.submit env ?_ (by simp) 0)
      exact h.image
  | release => exact sound_tbMediaRelease media
  | close => exact Sound.of_phase_ne (sound_tbMediaRelease media).image (by simp [step, tbMediaClose])
  | completed sequence response => exact sound_completed env h sequence response hclean

end Calls

end TbMedia

/-- **A ready image was verified**, after any calls of the view of which no last response stops
inside a literal where the image is full. -/
theorem verified_of_run (config : TbMediaConfig) (events : List (TbMediaEnv × MediaEvent))
    (media : TbMedia)
    (hrun : Run (Within Clean fun media event media' => media.step event = media')
      (TbMedia.tbMediaInit config) events media) : Verified media := by
  have hstart : (TbMedia.tbMediaInit config).Sound :=
    TbMedia.Sound.of_phase_ne (soundFor_tbImageReset _) (by simp [TbMedia.tbMediaInit])
  have hsound : media.Sound := by
    refine Run.invariant TbMedia.Sound ?_ hrun hstart
    rintro media event _ h ⟨hclean, rfl⟩
    exact TbMedia.step_sound h event hclean
  exact hsound.verified

section SinglePixel

def pixelConfig : TbMediaConfig := { maxBudget := 28672, minBudget := 1024 }

def pixelStream (crc body : List UInt8) : List UInt8 :=
  [0x54, 0x42, 1, 1, 0, 1, 1, 0, 1, 0, 1, 0, 1, 0, 7, 0, 0, 0] ++ crc ++ [0xC0] ++ body

/-- One response with the information about a stream of 25 bytes and with the stream. -/
def pixelResponse (stream : List UInt8) : TbResponse where
  outcome := .response
  payload := [13, 15, 0, 0, 0, 1, 1, 7, 0, 0, 0, 25, 0, 0, 0, 0, 0, 0] ++
    [14, 29, 0, 0, 0, 0, 0] ++ stream

def pixelEvents (stream : List UInt8) : List (TbMediaEnv × MediaEvent) :=
  [({}, .bind [0x61] [0x31] [0x32] tbMediaFlagImage 1), ({ submitted := ⟨1, .timeout⟩ }, .load),
    ({}, .completed 1 (pixelResponse stream))]

def pixelLoading : TbMedia :=
  ((TbMedia.tbMediaInit pixelConfig).step ({}, .bind [0x61] [0x31] [0x32] tbMediaFlagImage 1)).step
    ({ submitted := ⟨1, .timeout⟩ }, .load)

def pixelLoaded (stream : List UInt8) : TbMedia :=
  pixelLoading.step ({}, .completed 1 (pixelResponse stream))

/-- A stream whose only literal is written out: the view is ready, and was verified. -/
theorem verified_of_run_pixel :
    let media := pixelLoaded (pixelStream [0xAD, 0x6C, 0xBA, 0x3F] [0x00, 0x80])
    media.phase = .ready ∧ Verified media := by
  have hclean : ¬ StopsInLiteral pixelLoading
      (pixelResponse (pixelStream [0xAD, 0x6C, 0xBA, 0x3F] [0x00, 0x80])) := by decide +kernel
  refine ⟨by decide, verified_of_run pixelConfig
    (pixelEvents (pixelStream [0xAD, 0x6C, 0xBA, 0x3F] [0x00, 0x80])) _ ?_⟩
  have hloading : Run (Within Clean fun media event media' => media.step event = media')
      (TbMedia.tbMediaInit pixelConfig)
      [({}, .bind [0x61] [0x31] [0x32] tbMediaFlagImage 1), ({ submitted := ⟨1, .timeout⟩ }, .load)]
      pixelLoading := ((Run.nil _).snoc ⟨trivial, rfl⟩).snoc ⟨trivial, rfl⟩
  exact hloading.snoc ⟨fun _ _ _ _ => hclean, rfl⟩

/-- **A stream that stops inside a literal**: five bytes are announced, one follows and fills the
image. The view is ready with the literal in progress and a checksum that does not match. -/
theorem ready_inside_literal :
    let media := pixelLoaded (pixelStream [0, 0, 0, 0] [0x04, 0xAA])
    Run (fun media event media' => media.step event = media') (TbMedia.tbMediaInit pixelConfig)
        (pixelEvents (pixelStream [0, 0, 0, 0] [0x04, 0xAA])) media ∧
      media.phase = .ready ∧ media.image.op = .literal ∧ ¬ CrcMatches media.image ∧
      ¬ Verified media := by
  refine ⟨(run_function_iff _ _ _ _).mpr rfl, by decide, by decide, by decide, ?_⟩
  intro h
  exact absurd (h (by decide)).2.2.1 (by decide)

end SinglePixel

end Watch
