import TeleBezel.Image.Stream
import TeleBezel.Watch.MediaVerified

/-!
# The stream of a transfer

Beside the view runs a log of the current transfer: the records whose data were taken since the
decoder was last reset, each with the tag that was then current, and the requests from an offset since
the last start. Whatever the responses, the decoder of the view is a decoder that was reset and fed the
bytes of the log.
-/

open List

namespace Watch

open Word Transition TbMedia

structure Chunk where
  tag : ℕ
  offset : ℕ
  data : List UInt8

def chunkBytes (chunks : List Chunk) : List UInt8 := chunks.flatMap (·.data)

/-- The chunks follow one another from an offset. -/
def Consecutive : ℕ → List Chunk → Prop
  | _, [] => True
  | offset, chunk :: chunks => chunk.offset = offset ∧ Consecutive (offset + chunk.data.length) chunks

@[simp] theorem chunkBytes_append (chunks chunks' : List Chunk) :
    chunkBytes (chunks ++ chunks') = chunkBytes chunks ++ chunkBytes chunks' :=
  flatMap_append

@[simp] theorem chunkBytes_singleton (chunk : Chunk) : chunkBytes [chunk] = chunk.data := by
  simp [chunkBytes]

theorem Consecutive.snoc {chunks : List Chunk} {chunk : Chunk} :
    ∀ {offset : ℕ}, Consecutive offset chunks →
      chunk.offset = offset + (chunkBytes chunks).length → Consecutive offset (chunks ++ [chunk]) := by
  induction chunks with
  | nil =>
    intro offset _ hoffset
    exact ⟨hoffset, trivial⟩
  | cons first chunks ih =>
    intro offset h hoffset
    refine ⟨h.1, ih h.2 ?_⟩
    rw [hoffset, chunkBytes, flatMap_cons, length_append, Nat.add_assoc]
    rfl

/-- `malloc` gives a buffer of the size it is asked for. -/
def TbMediaEnv.Lawful (env : TbMediaEnv) : Prop :=
  ∀ n pixels, env.malloc n = some pixels → pixels.length = n

namespace TbMedia

/-- The records of a payload whose data are taken, after those taken before; the information about
another image starts anew. -/
def parseChunks (env : TbMediaEnv) :
    ℕ → Bool → TbMedia → TbCursor → List Chunk → List Chunk
  | 0, _, _, _, chunks => chunks
  | fuel + 1, first, media, cursor, chunks =>
    match tbCodecNext cursor with
    | none => chunks
    | some (type, body, rest) =>
      if type = tbRecordMediaInfo ∧ first = true then
        match tbCodecMediaInfo body with
        | none => chunks
        | some record =>
          let chunks := if record.state = 0 ∧ record.tag ≠ media.tag then [] else chunks
          match info env media record with
          | (true, media) => parseChunks env fuel false media rest chunks
          | (false, _) => chunks
      else if type = tbRecordMediaData then
        match tbCodecMediaData body with
        | none => chunks
        | some record =>
          match feed env media record with
          | (.ok, media') =>
            parseChunks env fuel false media' rest (chunks ++ [⟨media.tag, record.offset, record.data⟩])
          | _ => chunks
      else chunks

variable (media : TbMedia)

/-- Whether `tb_media_load` starts. -/
def loads : Bool :=
  ¬ (media.account = [] ∨ media.phase = .none ∨ media.phase = .restricted) ∧
    ¬ (media.phase = .spoiler ∧ media.reveal = false) ∧
    ¬ (media.pending ≠ 0 ∨ media.phase = .ready ∨ media.phase = .waiting)

/-- Whether `tb_media_show` goes to another image. -/
def shows (index : ℕ) : Bool :=
  ¬ (media.account = [] ∨ media.count ≤ index ∨ index = media.index)

/-- The view that `tb_media_show` loads. -/
def shown (index : ℕ) : TbMedia :=
  { media.tbMediaRelease with
    index := index
    reveal := false
    phase := if media.flags &&& tbMediaFlagRestricted ≠ 0 then .restricted else .idle }

def parses (sequence : ℕ) (response : TbResponse) : Bool :=
  ¬ (sequence ≠ media.pending ∨ response.outcome = .cancelled) ∧
    ¬ (response.outcome ≠ .response ∨ response.result ≠ tbResultOk)

/-- Whether a call runs `start`. -/
def starts : TbMediaEnv × MediaEvent → Bool
  | (_, .load) => media.loads
  | (_, .show index) => media.shows index && (media.shown index).loads
  | (_, .reveal) => media.phase = .spoiler
  | (_, .retry) => media.phase = .error ∨ media.phase = .noMemory ∨ media.phase = .unavailable
  | (env, .completed sequence response) =>
    media.parses sequence response && decide ((parse env media response).1 = .corrupt) &&
      !(parse env media response).2.crcRetry
  | _ => false

def drops : TbMediaEnv × MediaEvent → Bool
  | (_, .bind account chat message _ _) => !media.tbMediaBound account chat message
  | (_, .show index) => media.shows index
  | (_, .release) => true
  | (_, .close) => true
  | (env, .completed sequence response) =>
    media.parses sequence response &&
      decide ((parse env media response).1 = .corrupt ∨ (parse env media response).1 = .memory)
  | event => media.starts event

end TbMedia

def MediaCall.resumes : MediaCall → Bool
  | .request _ _ _ _ _ offset _ => offset ≠ 0
  | _ => false

/-- The log of a transfer: the records taken since the decoder was reset, and the requests from an
offset since the last start. -/
structure TransferLog where
  chunks : List Chunk := []
  resumes : ℕ := 0

def TbMedia.resumesOf (media : TbMedia) (event : TbMediaEnv × MediaEvent) : ℕ :=
  ((media.step event).calls.drop media.calls.length).countP MediaCall.resumes

def TbMedia.chunksAfter (media : TbMedia) (chunks : List Chunk) :
    TbMediaEnv × MediaEvent → List Chunk
  | (env, .completed sequence response) =>
    if media.drops (env, .completed sequence response) then []
    else if media.parses sequence response then
      parseChunks env response.payload.length (response.index = 0) media response.payload
        chunks
    else chunks
  | event => if media.drops event then [] else chunks

def TransferLog.next (media : TbMedia) (log : TransferLog) (event : TbMediaEnv × MediaEvent) :
    TransferLog where
  chunks := media.chunksAfter log.chunks event
  resumes := (if media.starts event then 0 else log.resumes) + media.resumesOf event

def TbMedia.stepLog (s : TbMedia × TransferLog) (event : TbMediaEnv × MediaEvent) :
    TbMedia × TransferLog :=
  (s.1.step event, s.2.next s.1 event)

/-- The view stands where its log ends: its decoder was reset and fed the bytes of the log, which were
taken at consecutive offsets under the current tag. -/
structure Streamed (media : TbMedia) (chunks : List Chunk) : Prop where
  image : ∃ buffer, (∀ n, (buffer n).length = n) ∧ Decoding buffer (chunkBytes chunks) media.image
  consecutive : Consecutive 0 chunks
  received : media.received = (chunkBytes chunks).length
  tag : ∀ chunk ∈ chunks, chunk.tag = media.tag

namespace Streamed

variable {media media' : TbMedia} {chunks : List Chunk} {env : TbMediaEnv}

theorem congr (h : Streamed media chunks) (himage : media'.image = media.image)
    (hreceived : media'.received = media.received) (htag : media'.tag = media.tag) :
    Streamed media' chunks :=
  ⟨himage ▸ h.image, h.consecutive, hreceived.trans h.received,
    fun chunk hchunk => (h.tag chunk hchunk).trans htag.symm⟩

theorem nil (himage : media.image = tbImageReset) (hreceived : media.received = 0) :
    Streamed media [] := by
  refine ⟨⟨(List.replicate · 0), fun _ => length_replicate, ?_⟩, trivial, hreceived, ?_⟩
  · rw [himage]
    exact decoding_tbImageReset _
  · intro chunk hchunk
    cases hchunk

theorem feedLoop_frame (env : TbMediaEnv) (fuel : ℕ) :
    ∀ (media : TbMedia) (data : List UInt8),
      ∃ image, (feedLoop env fuel media data).2.1 = { media with image := image } := by
  induction fuel with
  | zero =>
    intro media data
    exact ⟨media.image, rfl⟩
  | succ fuel ih =>
    intro media data
    rw [feedLoop]
    split_ifs
    · exact ⟨media.image, rfl⟩
    · dsimp only
      split
      · exact ⟨_, rfl⟩
      · split_ifs
        · exact ⟨_, rfl⟩
        · split
          · exact ⟨_, rfl⟩
          · exact ih _ _
      · exact ⟨_, rfl⟩
      · exact ih _ _

theorem decoding_feedLoop (henv : env.Lawful) (fuel : ℕ) :
    ∀ {media media' : TbMedia} {stream data : List UInt8},
      (∃ buffer, (∀ n, (buffer n).length = n) ∧ Decoding buffer stream media.image) →
      feedLoop env fuel media data = (.ok, media', []) →
      ∃ buffer, (∀ n, (buffer n).length = n) ∧ Decoding buffer (stream ++ data) media'.image := by
  induction fuel with
  | zero =>
    intro media media' stream data h hloop
    cases hloop
    rwa [append_nil]
  | succ fuel ih =>
    intro media media' stream data ⟨buffer, hbuffer, h⟩ hloop
    rw [feedLoop] at hloop
    split_ifs at hloop with hempty
    · cases hloop
      rw [append_nil]
      exact ⟨buffer, hbuffer, h⟩
    dsimp only at hloop
    rcases h.feed data with hbad | ⟨hstatus, hused, hnext⟩ | ⟨q, rest, rfl, hhead, hready⟩
    · rw [hbad] at hloop
      cases hloop
    · rcases hstatus with hmore | hdone
      · rw [hmore, hused, drop_length] at hloop
        have hrest := ih ⟨buffer, hbuffer, hnext⟩ hloop
        rwa [append_nil] at hrest
      · rw [hdone] at hloop
        obtain ⟨rfl, -⟩ := Prod.mk.inj (Prod.mk.inj hloop).2
        exact ⟨buffer, hbuffer, hnext⟩
    · rw [hready] at hloop
      dsimp only at hloop
      split_ifs at hloop with hwrong
      · cases hloop
      rw [drop_left] at hloop
      split at hloop
      · cases hloop
      · next pixels hpixels =>
        have hlen := henv _ _ hpixels
        have hrest := ih ⟨bufferOf pixels, length_bufferOf pixels, decoding_bufferOf hhead hlen⟩ hloop
        rwa [append_assoc] at hrest

theorem feed (h : Streamed media chunks) (henv : env.Lawful) {record : TbMediaDataRecord}
    (hfeed : TbMedia.feed env media record = (.ok, media')) :
    Streamed media' (chunks ++ [⟨media.tag, record.offset, record.data⟩]) := by
  unfold TbMedia.feed at hfeed
  split_ifs at hfeed with hrefused
  · cases hfeed
  rw [not_or, not_not, not_not] at hrefused
  obtain ⟨image, hframe⟩ := feedLoop_frame env record.data.length media record.data
  rcases hloop : feedLoop env record.data.length media record.data with ⟨result, media₁, rest⟩
  rw [hloop] at hfeed hframe
  dsimp only at hframe
  cases result with
  | ok =>
    dsimp only at hfeed
    split_ifs at hfeed with hrest
    · cases hfeed
    rw [not_not] at hrest
    subst hrest
    obtain ⟨buffer, hbuffer, hdecoding⟩ := decoding_feedLoop henv _ h.image hloop
    have hlen := hdecoding.length_lt
    obtain ⟨-, rfl⟩ := Prod.mk.inj hfeed
    refine ⟨⟨buffer, hbuffer, ?_⟩, h.consecutive.snoc ?_, ?_, fun chunk hchunk => ?_⟩
    · rw [chunkBytes_append, chunkBytes_singleton]
      exact hdecoding
    · rw [Nat.zero_add, ← h.received]
      exact hrefused.2
    · rw [chunkBytes_append, chunkBytes_singleton, length_append, ← h.received]
      rw [length_append, ← h.received] at hlen
      have hreceived : media₁.received = media.received := by rw [hframe]
      simp only [hreceived, uint32]
      omega
    · have htag : media₁.tag = media.tag := by rw [hframe]
      rcases mem_append.mp hchunk with hold | hnew
      · exact (h.tag chunk hold).trans htag.symm
      · rw [mem_singleton.mp hnew]
        exact htag.symm
  | protocol => cases hfeed
  | corrupt => cases hfeed
  | memory => cases hfeed

/-- **The information of a response**: another image starts anew, everything else leaves the stream
where it is. -/
theorem info (h : Streamed media chunks) (env : TbMediaEnv) (record : TbMediaInfoRecord) :
    Streamed (TbMedia.info env media record).2
      (if record.state = 0 ∧ record.tag ≠ media.tag then [] else chunks) := by
  have hdescribe : Streamed (media.describe record) chunks := h.congr rfl rfl rfl
  have hwait : ∀ media : TbMedia, Streamed media chunks →
      Streamed (TbMedia.waitFor env media record.retryAfter) chunks := by
    intro media h
    unfold TbMedia.waitFor
    split_ifs <;> exact h.congr rfl rfl rfl
  by_cases hstate : record.state = 0
  · have hinfo : (TbMedia.info env media record).2 = (media.describe record).announce record := by
      simp only [TbMedia.info, hstate]
    rw [hinfo]
    by_cases htag : record.tag = media.tag
    · rw [if_neg (by simp [htag])]
      refine hdescribe.congr ?_ ?_ htag
      · simp [TbMedia.announce, TbMedia.describe, htag]
      · simp [TbMedia.announce, TbMedia.describe, htag]
    · rw [if_pos ⟨hstate, htag⟩]
      refine nil ?_ ?_
      · simp [TbMedia.announce, TbMedia.describe, htag]
      · simp [TbMedia.announce, TbMedia.describe, htag]
  · rw [if_neg (by simp [hstate])]
    unfold TbMedia.info
    split
    · next hzero => exact absurd hzero hstate
    · exact hwait _ hdescribe
    · exact hwait _ hdescribe
    all_goals exact hdescribe.congr rfl rfl rfl

theorem parseLoop (henv : env.Lawful) (fuel : ℕ) :
    ∀ {first : Bool} {media media' : TbMedia} {cursor : TbCursor} {chunks : List Chunk}
      {result : TbFeed}, Streamed media chunks →
      TbMedia.parseLoop env fuel first media cursor = (result, media') →
      result = .ok ∨ result = .protocol →
      Streamed media' (parseChunks env fuel first media cursor chunks) := by
  induction fuel with
  | zero =>
    intro first media media' cursor chunks result h hparse _
    obtain ⟨-, rfl⟩ := Prod.mk.inj hparse
    exact h
  | succ fuel ih =>
    intro first media media' cursor chunks result h hparse hresult
    rw [TbMedia.parseLoop] at hparse
    rw [parseChunks]
    split_ifs at hparse with hempty
    · obtain ⟨-, rfl⟩ := Prod.mk.inj hparse
      have hnone : tbCodecNext cursor = none := by
        rw [hempty]
        rfl
      rw [hnone]
      exact h
    rcases hnext : tbCodecNext cursor with _ | ⟨type, body, rest⟩
    · rw [hnext] at hparse
      obtain ⟨-, rfl⟩ := Prod.mk.inj hparse
      exact h
    simp only [hnext] at hparse ⊢
    split_ifs at hparse with hfirst hdata
    · rw [if_pos hfirst]
      rcases hbody : tbCodecMediaInfo body with _ | record
      · rw [hbody] at hparse
        obtain ⟨-, rfl⟩ := Prod.mk.inj hparse
        exact h
      have hrecord := h.info env record
      simp only [hbody] at hparse ⊢
      rcases hinfo : TbMedia.info env media record with ⟨_ | _, media₁⟩
      · rw [hinfo] at hparse hrecord
        obtain ⟨-, rfl⟩ := Prod.mk.inj hparse
        exact hrecord
      · rw [hinfo] at hparse hrecord
        exact ih hrecord hparse hresult
    · rw [if_neg hfirst, if_pos hdata]
      rcases hbody : tbCodecMediaData body with _ | record
      · rw [hbody] at hparse
        obtain ⟨-, rfl⟩ := Prod.mk.inj hparse
        exact h
      simp only [hbody] at hparse ⊢
      rcases hfeed : TbMedia.feed env media record with ⟨fed, media₁⟩
      cases fed with
      | ok =>
        simp only [hfeed] at hparse
        exact ih (h.feed henv hfeed) hparse hresult
      | protocol =>
        simp only [hfeed] at hparse
        obtain ⟨-, rfl⟩ := Prod.mk.inj hparse
        rw [eq_of_feed_protocol hfeed]
        exact h
      | corrupt | memory =>
        simp only [hfeed] at hparse
        obtain ⟨rfl, -⟩ := Prod.mk.inj hparse
        rcases hresult with hok | hprotocol
        · cases hok
        · cases hprotocol
    · rw [if_neg hfirst, if_neg hdata]
      obtain ⟨-, rfl⟩ := Prod.mk.inj hparse
      exact h

end Streamed

section Calls

/-- The calls go on from those before with no request from an offset, and the count stays. -/
structure Quiet (media media' : TbMedia) : Prop where
  calls : ∃ new, media'.calls = media.calls ++ new ∧ new.countP MediaCall.resumes = 0
  resumes : media'.resumes = media.resumes

/-- The calls go on from those before, and the view counts the requests from an offset among them. -/
structure Counts (media media' : TbMedia) : Prop where
  calls : ∃ new, media'.calls = media.calls ++ new ∧
    media'.resumes = media.resumes + new.countP MediaCall.resumes
  bounded : media.resumes ≤ tbMediaResumes → media'.resumes ≤ tbMediaResumes

variable {media media' media'' : TbMedia} {env : TbMediaEnv} {chunks : List Chunk}

theorem Quiet.of_eq (hcalls : media'.calls = media.calls)
    (hresumes : media'.resumes = media.resumes) : Quiet media media' :=
  ⟨⟨[], by rw [hcalls, append_nil], rfl⟩, hresumes⟩

theorem Quiet.of_calls (new : List MediaCall) (hcalls : media'.calls = media.calls ++ new)
    (hnone : new.countP MediaCall.resumes = 0) (hresumes : media'.resumes = media.resumes) :
    Quiet media media' :=
  ⟨⟨new, hcalls, hnone⟩, hresumes⟩

theorem Quiet.refl (media : TbMedia) : Quiet media media := .of_eq rfl rfl

section

variable (h : Quiet media media')
include h

theorem Quiet.trans (h' : Quiet media' media'') : Quiet media media'' := by
  obtain ⟨new, hcalls, hnone⟩ := h.calls
  obtain ⟨new', hcalls', hnone'⟩ := h'.calls
  refine ⟨⟨new ++ new', ?_, ?_⟩, h'.resumes.trans h.resumes⟩
  · rw [hcalls', hcalls, append_assoc]
  · rw [countP_append, hnone, hnone']

theorem Quiet.anew :
    Quiet { media with resumes := 0 } { media' with resumes := 0 } :=
  ⟨h.calls, rfl⟩

theorem Quiet.counts : Counts media media' := by
  obtain ⟨new, hcalls, hnone⟩ := h.calls
  exact ⟨⟨new, hcalls, by rw [h.resumes, hnone, Nat.add_zero]⟩, fun hle => h.resumes.trans_le hle⟩

theorem Quiet.then (h' : Counts media' media'') : Counts media media'' := by
  obtain ⟨new, hcalls, hnone⟩ := h.calls
  obtain ⟨⟨new', hcalls', hresumes'⟩, hbounded'⟩ := h'
  refine ⟨⟨new ++ new', ?_, ?_⟩, fun hle => hbounded' (h.resumes.trans_le hle)⟩
  · rw [hcalls', hcalls, append_assoc]
  · rw [hresumes', h.resumes, countP_append, hnone, Nat.zero_add]

end

theorem quiet_changed (media : TbMedia) : Quiet media media.changed :=
  .of_calls [.changed] rfl rfl rfl

theorem quiet_cancelPending (media : TbMedia) : Quiet media media.cancelPending := by
  unfold cancelPending
  split_ifs
  · exact Quiet.refl media
  · exact .of_calls _ rfl rfl rfl

theorem quiet_abandon (media : TbMedia) (sequence : ℕ) (response : TbResponse) :
    Quiet media (media.abandon sequence response) := by
  unfold abandon
  split_ifs
  · exact Quiet.refl media
  · exact .of_calls _ rfl rfl rfl

theorem quiet_submit (env : TbMediaEnv) (media : TbMedia) : Quiet media (media.submit env 0) := by
  unfold submit
  dsimp only
  split_ifs <;> exact .of_calls [media.request 0] rfl rfl rfl

theorem quiet_waitFor (env : TbMediaEnv) (media : TbMedia) (retryAfter : ℕ) :
    Quiet media (media.waitFor env retryAfter) := by
  unfold waitFor
  split_ifs
  · exact .of_eq rfl rfl
  all_goals exact .of_calls _ rfl rfl rfl

theorem quiet_release (media : TbMedia) : Quiet media media.tbMediaRelease := by
  have hcancel := quiet_cancelPending media
  unfold tbMediaRelease
  dsimp only
  split_ifs <;> exact hcancel.trans (.of_calls [.cancelTimer] rfl rfl rfl)

theorem quiet_info (env : TbMediaEnv) (media : TbMedia) (record : TbMediaInfoRecord) :
    Quiet media (TbMedia.info env media record).2 := by
  have hdescribe : Quiet media (media.describe record) := .of_eq rfl rfl
  unfold TbMedia.info
  split
  · exact .of_eq rfl rfl
  · exact hdescribe.trans (quiet_waitFor env _ _)
  · exact hdescribe.trans (quiet_waitFor env _ _)
  all_goals exact .of_eq rfl rfl

theorem quiet_feed (env : TbMediaEnv) (media : TbMedia) (record : TbMediaDataRecord) :
    Quiet media (TbMedia.feed env media record).2 := by
  unfold TbMedia.feed
  split_ifs
  · exact Quiet.refl media
  obtain ⟨image, hframe⟩ := Streamed.feedLoop_frame env record.data.length media record.data
  generalize feedLoop env record.data.length media record.data = looped at hframe ⊢
  obtain ⟨result, media₁, rest⟩ := looped
  subst hframe
  cases result with
  | ok =>
    dsimp only
    split_ifs <;> exact .of_eq rfl rfl
  | protocol | corrupt | memory => exact .of_eq rfl rfl

theorem quiet_parseLoop (env : TbMediaEnv) (fuel : ℕ) :
    ∀ (first : Bool) (media : TbMedia) (cursor : TbCursor),
      Quiet media (TbMedia.parseLoop env fuel first media cursor).2 := by
  induction fuel with
  | zero =>
    intro first media cursor
    exact Quiet.refl media
  | succ fuel ih =>
    intro first media cursor
    rw [TbMedia.parseLoop]
    split_ifs
    · exact Quiet.refl media
    rcases tbCodecNext cursor with _ | ⟨type, body, rest⟩
    · exact Quiet.refl media
    dsimp only
    split_ifs
    · rcases tbCodecMediaInfo body with _ | record
      · exact Quiet.refl media
      have hinfo := quiet_info env media record
      dsimp only
      generalize TbMedia.info env media record = informed at hinfo ⊢
      obtain ⟨_ | _, media₁⟩ := informed
      · exact hinfo
      · exact hinfo.trans (ih false media₁ rest)
    · rcases tbCodecMediaData body with _ | record
      · exact Quiet.refl media
      have hfeed := quiet_feed env media record
      dsimp only
      generalize TbMedia.feed env media record = fed at hfeed ⊢
      obtain ⟨_ | _ | _ | _, media₁⟩ := fed
      · exact hfeed.trans (ih false media₁ rest)
      · exact hfeed
      · exact hfeed
      · exact hfeed
    · exact Quiet.refl media

section

variable (env : TbMediaEnv) (media : TbMedia)

theorem counts_fail (error : ℤ) (outcome : TbRequestOutcome) :
    Counts media (media.fail env error outcome) := by
  unfold fail
  dsimp only
  split_ifs with hresume
  · obtain ⟨-, -, hreceived, hlt⟩ := hresume
    have hcount : [({ media with pending := 0, resumes := media.resumes + 1 } : TbMedia).request
        media.received, .changed].countP MediaCall.resumes = 1 := by
      simp [request, MediaCall.resumes, hreceived.ne']
    unfold submit changed
    dsimp only
    split_ifs
    · refine ⟨⟨[_, .changed], ?_, by rw [hcount]⟩, fun _ => hlt⟩
      simp
    · refine ⟨⟨[_, .changed], ?_, by rw [hcount]⟩, fun _ => hlt⟩
      simp
  all_goals
    apply Quiet.counts
    exact .of_calls [.changed] rfl rfl rfl

theorem counts_finish (response : TbResponse) :
    Counts media (media.finish env response) := by
  have hpending : Quiet media { media with pending := 0 } := .of_eq rfl rfl
  unfold finish
  dsimp only
  split_ifs
  · apply Quiet.counts
    exact .of_calls [.changed] rfl rfl rfl
  · exact hpending.then (counts_fail env _ _ _)
  · exact (hpending.trans (quiet_changed _)).counts
  · exact (quiet_changed media).counts

theorem quiet_start :
    Quiet { media with resumes := 0 } (media.start env) := by
  have hcancel : Quiet { media with resumes := 0 }
      { media.cancelPending.dropPixels with
        calls := media.cancelPending.calls ++ [MediaCall.cancelTimer]
        due := 0
        resumes := 0 } :=
    (quiet_cancelPending media).anew.trans (.of_calls [.cancelTimer] rfl rfl rfl)
  unfold start
  dsimp only
  split_ifs
  · exact hcancel.trans (.of_calls [.changed] rfl rfl rfl)
  · refine hcancel.trans (Quiet.trans ?_ (quiet_changed _))
    refine Quiet.trans ?_ (quiet_submit env _)
    exact .of_eq rfl rfl

theorem tbMediaLoad_eq :
    media.tbMediaLoad env =
      if media.loads then start env { media with crcRetry := false } else media := by
  unfold tbMediaLoad
  by_cases hnone : media.account = [] ∨ media.phase = .none ∨ media.phase = .restricted
  · rw [if_pos hnone, if_neg (by simp [loads, hnone])]
  by_cases hspoiler : media.phase = .spoiler ∧ media.reveal = false
  · rw [if_neg hnone, if_pos hspoiler, if_neg (by simp [loads, hspoiler])]
  by_cases hbusy : media.pending ≠ 0 ∨ media.phase = .ready ∨ media.phase = .waiting
  · rw [if_neg hnone, if_neg hspoiler, if_pos hbusy, if_neg (by simp [loads, hbusy])]
  · have hloads : media.loads = true := decide_eq_true ⟨hnone, hspoiler, hbusy⟩
    rw [if_neg hnone, if_neg hspoiler, if_neg hbusy, if_pos hloads]

theorem tbMediaShow_eq (index : ℕ) :
    media.tbMediaShow env index =
      if media.shows index then changed ((media.shown index).tbMediaLoad env) else media := by
  unfold tbMediaShow
  by_cases hstays : media.account = [] ∨ media.count ≤ index ∨ index = media.index
  · rw [if_pos hstays, if_neg (by simp [shows, hstays])]
  · have hshows : media.shows index = true := decide_eq_true hstays
    rw [if_neg hstays, if_pos hshows]
    rfl

theorem completed_eq (sequence : ℕ) (response : TbResponse) :
    media.completed env sequence response =
      if media.parses sequence response then
        match parse env media response with
        | (.ok, media) => media.finish env response
        | (.corrupt, media) => corrupt env (media.abandon sequence response)
        | (.memory, media) =>
          changed
            { (media.abandon sequence response).dropPixels with pending := 0, phase := .noMemory }
        | (.protocol, media) =>
          fail env (media.abandon sequence response) tbResultProtocolError .protocol
      else if sequence ≠ media.pending ∨ response.outcome = .cancelled then media
      else fail env (media.abandon sequence response) (tbErrorFromResponse response)
        response.outcome := by
  unfold completed
  by_cases hother : sequence ≠ media.pending ∨ response.outcome = .cancelled
  · rw [if_pos hother, if_neg (by simp [parses, hother]), if_pos hother]
  by_cases hfailed : response.outcome ≠ .response ∨ response.result ≠ tbResultOk
  · rw [if_neg hother, if_pos hfailed, if_neg (by simp [parses, hfailed]), if_neg hother]
  · have hparses : media.parses sequence response = true := decide_eq_true ⟨hother, hfailed⟩
    exact (if_neg hother).trans ((if_neg hfailed).trans (if_pos hparses).symm)

end

theorem crcRetry_abandon (media : TbMedia) (sequence : ℕ) (response : TbResponse) :
    (media.abandon sequence response).crcRetry = media.crcRetry := by
  unfold abandon
  split_ifs <;> rfl

variable {event : TbMediaEnv × MediaEvent}

theorem counts_step (hstarts : media.starts event = false) :
    Counts media (media.step event) := by
  obtain ⟨env, event⟩ := event
  have hclose : Quiet media media.tbMediaClose := (quiet_release media).trans (.of_eq rfl rfl)
  have hload : ∀ media : TbMedia, media.loads = false → media.tbMediaLoad env = media := by
    intro media hloads
    rw [tbMediaLoad_eq, hloads]
    rfl
  cases event with
  | bind account chat message flags count =>
    simp only [TbMedia.step, TbMedia.tbMediaBind]
    split
    · exact (Quiet.refl media).counts
    · apply Quiet.counts
      refine Quiet.trans ?_ (quiet_changed _)
      exact hclose.trans (.of_eq rfl rfl)
  | load =>
    simp only [TbMedia.step, hload media hstarts]
    exact (Quiet.refl media).counts
  | «show» index =>
    simp only [TbMedia.step, tbMediaShow_eq]
    split_ifs with hshows
    · have hloads : (media.shown index).loads = false := by
        simpa [TbMedia.starts, hshows] using hstarts
      rw [hload _ hloads]
      apply Quiet.counts
      refine Quiet.trans ?_ (quiet_changed _)
      exact (quiet_release media).trans (.of_eq rfl rfl)
    · exact (Quiet.refl media).counts
  | reveal =>
    have hphase : media.phase ≠ .spoiler := by simpa [TbMedia.starts] using hstarts
    simp only [TbMedia.step, TbMedia.tbMediaReveal, if_pos hphase]
    exact (Quiet.refl media).counts
  | retry =>
    have hphase : media.phase ≠ .error ∧ media.phase ≠ .noMemory ∧ media.phase ≠ .unavailable := by
      simpa [TbMedia.starts, not_or] using hstarts
    simp only [TbMedia.step, TbMedia.tbMediaRetry, if_pos hphase]
    exact (Quiet.refl media).counts
  | timer =>
    simp only [TbMedia.step, TbMedia.tbMediaTimer]
    split_ifs
    · exact (Quiet.refl media).counts
    · apply Quiet.counts
      exact .of_calls _ rfl rfl rfl
    · apply Quiet.counts
      refine Quiet.trans ?_ (quiet_changed _)
      refine Quiet.trans ?_ (quiet_submit env _)
      exact .of_eq rfl rfl
  | release => exact (quiet_release media).counts
  | close => exact hclose.counts
  | completed sequence response =>
    simp only [TbMedia.step, completed_eq]
    split_ifs with hparses
    · have hparse : Quiet media (TbMedia.parse env media response).2 := quiet_parseLoop env _ _ _ _
      have hcrc : (TbMedia.parse env media response).1 = .corrupt →
          (TbMedia.parse env media response).2.crcRetry = true := by
        intro hcorrupt
        simpa [TbMedia.starts, hparses, hcorrupt] using hstarts
      generalize TbMedia.parse env media response = parsed at hparse hcrc ⊢
      obtain ⟨_ | _ | _ | _, media₁⟩ := parsed
      · exact hparse.then (counts_finish env media₁ response)
      · exact (hparse.trans (quiet_abandon media₁ sequence response)).then (counts_fail env _ _ _)
      · have hretry : (media₁.abandon sequence response).crcRetry = true := by
          rw [crcRetry_abandon]
          exact hcrc rfl
        apply Quiet.counts
        refine (hparse.trans (quiet_abandon media₁ sequence response)).trans ?_
        simp only [TbMedia.corrupt, hretry, Bool.true_eq_false, if_false]
        exact .of_calls [.changed] rfl rfl rfl
      · apply Quiet.counts
        refine (hparse.trans (quiet_abandon media₁ sequence response)).trans ?_
        exact .of_calls [.changed] rfl rfl rfl
    · exact (Quiet.refl media).counts
    · exact (quiet_abandon media sequence response).then (counts_fail env _ _ _)

theorem quiet_step (hstarts : media.starts event = true) :
    Quiet { media with resumes := 0 } (media.step event) := by
  obtain ⟨env, event⟩ := event
  have hload : ∀ media : TbMedia, media.loads = true →
      Quiet { media with resumes := 0 } (media.tbMediaLoad env) := by
    intro media hloads
    rw [tbMediaLoad_eq, if_pos hloads]
    refine Quiet.trans ?_ (quiet_start env _)
    exact .of_eq rfl rfl
  cases event with
  | bind account chat message flags count => exact absurd hstarts (by simp [TbMedia.starts])
  | load => exact hload media hstarts
  | «show» index =>
    obtain ⟨hshows, hloads⟩ := Bool.and_eq_true_iff.mp hstarts
    simp only [TbMedia.step, tbMediaShow_eq, if_pos hshows]
    refine Quiet.trans ?_ (quiet_changed _)
    refine Quiet.trans ?_ (hload _ hloads)
    exact (quiet_release media).anew.trans (.of_eq rfl rfl)
  | reveal =>
    have hphase : ¬ media.phase ≠ .spoiler := by simpa [TbMedia.starts] using hstarts
    simp only [TbMedia.step, TbMedia.tbMediaReveal, if_neg hphase]
    refine Quiet.trans ?_ (quiet_start env _)
    exact .of_eq rfl rfl
  | retry =>
    have hphase : ¬ (media.phase ≠ .error ∧ media.phase ≠ .noMemory ∧
        media.phase ≠ .unavailable) := by
      have hfailed : media.phase = .error ∨ media.phase = .noMemory ∨ media.phase = .unavailable := by
        simpa [TbMedia.starts] using hstarts
      tauto
    simp only [TbMedia.step, TbMedia.tbMediaRetry, if_neg hphase]
    refine Quiet.trans ?_ (quiet_start env _)
    exact .of_eq rfl rfl
  | timer | release | close => exact absurd hstarts (by simp [TbMedia.starts])
  | completed sequence response =>
    have hcorrupt : (media.parses sequence response = true ∧
        (TbMedia.parse env media response).1 = .corrupt) ∧
        (TbMedia.parse env media response).2.crcRetry = false := by
      simpa [TbMedia.starts] using hstarts
    obtain ⟨⟨hparses, hcorrupt⟩, hretry⟩ := hcorrupt
    simp only [TbMedia.step, completed_eq, if_pos hparses]
    have hparse : Quiet media (TbMedia.parse env media response).2 := quiet_parseLoop env _ _ _ _
    generalize TbMedia.parse env media response = parsed at hparse hcorrupt hretry ⊢
    obtain ⟨result, media₁⟩ := parsed
    subst hcorrupt
    have hretry' : (media₁.abandon sequence response).crcRetry = false := by
      rw [crcRetry_abandon]
      exact hretry
    simp only [TbMedia.corrupt, hretry', if_true]
    refine (hparse.trans (quiet_abandon media₁ sequence response)).anew.trans ?_
    refine Quiet.trans ?_ (quiet_start env _)
    exact .of_eq rfl rfl

/-- **The requests from an offset are counted**, and never more than two since the last start. -/
theorem resumes_step {log : TransferLog} (hlog : log.resumes = media.resumes)
    (hle : media.resumes ≤ tbMediaResumes) (event : TbMediaEnv × MediaEvent) :
    (log.next media event).resumes = (media.step event).resumes ∧
      (media.step event).resumes ≤ tbMediaResumes := by
  cases hstarts : media.starts event with
  | false =>
    have h := counts_step hstarts
    obtain ⟨new, hcalls, hresumes⟩ := h.calls
    refine ⟨?_, h.bounded hle⟩
    simp [TransferLog.next, hstarts, resumesOf, hcalls, hresumes, hlog]
  | true =>
    have h := quiet_step hstarts
    obtain ⟨new, hcalls, hnone⟩ := h.calls
    have hresumes : (media.step event).resumes = 0 := h.resumes
    refine ⟨?_, hresumes.trans_le (Nat.zero_le _)⟩
    simp [TransferLog.next, hstarts, resumesOf, hcalls, hresumes, hnone]

end Calls

section Stream

variable {media media' media'' : TbMedia} {chunks : List Chunk}

/-- A call that leaves the image, its position and its total: the phase stays, or the view is neither
in transfer nor ready. -/
structure Settles (media media' : TbMedia) : Prop where
  image : media'.image = media.image
  received : media'.received = media.received
  tag : media'.tag = media.tag
  total : media'.total = media.total
  phase : media'.phase = media.phase ∨ media'.phase ≠ .transfer ∧ media'.phase ≠ .ready

theorem Settles.refl (media : TbMedia) : Settles media media := ⟨rfl, rfl, rfl, rfl, .inl rfl⟩

theorem Settles.trans (h : Settles media media') (h' : Settles media' media'') :
    Settles media media'' := by
  refine ⟨h'.image.trans h.image, h'.received.trans h.received, h'.tag.trans h.tag,
    h'.total.trans h.total, ?_⟩
  rcases h'.phase with hsame | hother
  · rw [hsame]
    exact h.phase
  · exact Or.inr hother

theorem Settles.streamed (h : Settles media media') (hstream : Streamed media chunks) :
    Streamed media' chunks := hstream.congr h.image h.received h.tag

theorem settles_changed (media : TbMedia) : Settles media media.changed :=
  ⟨rfl, rfl, rfl, rfl, .inl rfl⟩

variable (env : TbMediaEnv)

theorem settles_submit (media : TbMedia) (offset : ℕ) :
    Settles media (media.submit env offset) := by
  unfold submit
  dsimp only
  split_ifs
  · exact ⟨rfl, rfl, rfl, rfl, .inr ⟨by simp, by simp⟩⟩
  · exact ⟨rfl, rfl, rfl, rfl, .inl rfl⟩

theorem settles_abandon (media : TbMedia) (sequence : ℕ) (response : TbResponse) :
    Settles media (media.abandon sequence response) := by
  unfold abandon
  split_ifs
  · exact Settles.refl media
  · exact ⟨rfl, rfl, rfl, rfl, .inl rfl⟩

theorem settles_fail (media : TbMedia) (error : ℤ) (outcome : TbRequestOutcome) :
    Settles media (media.fail env error outcome) := by
  have hresume : Settles media { media with pending := 0, resumes := media.resumes + 1 } :=
    ⟨rfl, rfl, rfl, rfl, .inl rfl⟩
  unfold fail
  dsimp only
  split_ifs
  · exact (hresume.trans (settles_submit env _ _)).trans (settles_changed _)
  all_goals exact ⟨rfl, rfl, rfl, rfl, .inr ⟨by simp [changed], by simp [changed]⟩⟩

/-- The transfer is given up. -/
structure Dropped (media : TbMedia) : Prop where
  image : media.image = tbImageReset
  received : media.received = 0
  phase : media.phase ≠ .transfer ∧ media.phase ≠ .ready

theorem Dropped.settles (h : Dropped media) (h' : Settles media media') : Dropped media' := by
  refine ⟨h'.image.trans h.image, h'.received.trans h.received, ?_⟩
  rcases h'.phase with hsame | hother
  · rw [hsame]
    exact h.phase
  · exact hother

theorem dropped_start (media : TbMedia) : Dropped (media.start env) := by
  unfold start
  dsimp only
  split_ifs
  · exact ⟨rfl, rfl, by simp [changed], by simp [changed]⟩
  · refine Dropped.settles ?_ ((settles_submit env _ 0).trans (settles_changed _))
    exact ⟨rfl, rfl, by simp, by simp⟩

theorem dropped_release (media : TbMedia) : Dropped media.tbMediaRelease := by
  unfold tbMediaRelease
  dsimp only
  split_ifs with hphase
  · exact ⟨rfl, rfl, by simp, by simp⟩
  · refine ⟨rfl, rfl, ?_, ?_⟩
    · exact fun htransfer => hphase (Or.inr (Or.inr (Or.inl htransfer)))
    · exact fun hready => hphase (Or.inr (Or.inr (Or.inr hready)))

theorem dropped_corrupt (media : TbMedia) : Dropped (media.corrupt env) := by
  unfold corrupt
  dsimp only
  split_ifs
  · exact dropped_start env _
  · exact ⟨rfl, rfl, by simp [changed], by simp [changed]⟩

theorem initialPhase_ne (flags : ℕ) :
    initialPhase flags ≠ .transfer ∧ initialPhase flags ≠ .ready := by
  unfold initialPhase
  split_ifs <;> decide

variable {event : TbMediaEnv × MediaEvent}

theorem dropped_of_drops (hdrops : media.drops event = true) :
    Dropped (media.step event) := by
  obtain ⟨env, event⟩ := event
  have hrelease := dropped_release media
  cases event with
  | bind account chat message flags count =>
    have hbound : ¬ media.tbMediaBound account chat message = true := by
      simpa [drops] using hdrops
    simp only [TbMedia.step, TbMedia.tbMediaBind, if_neg hbound]
    exact ⟨hrelease.image, hrelease.received, initialPhase_ne flags⟩
  | load =>
    have hloads : media.loads = true := hdrops
    simp only [TbMedia.step, tbMediaLoad_eq, if_pos hloads]
    exact dropped_start env _
  | «show» index =>
    have hshows : media.shows index = true := hdrops
    have hshown : Dropped (media.shown index) := by
      refine ⟨hrelease.image, hrelease.received, ?_⟩
      simp only [shown]
      split_ifs <;> simp
    simp only [TbMedia.step, tbMediaShow_eq, if_pos hshows, tbMediaLoad_eq]
    split_ifs
    · exact (dropped_start env _).settles (settles_changed _)
    · exact hshown.settles (settles_changed _)
  | reveal =>
    have hphase : ¬ media.phase ≠ .spoiler := by simpa [drops, starts] using hdrops
    simp only [TbMedia.step, TbMedia.tbMediaReveal, if_neg hphase]
    exact dropped_start env _
  | retry =>
    have hphase : ¬ (media.phase ≠ .error ∧ media.phase ≠ .noMemory ∧
        media.phase ≠ .unavailable) := by
      have hfailed : media.phase = .error ∨ media.phase = .noMemory ∨ media.phase = .unavailable := by
        simpa [drops, starts] using hdrops
      tauto
    simp only [TbMedia.step, TbMedia.tbMediaRetry, if_neg hphase]
    exact dropped_start env _
  | timer => exact absurd hdrops (by simp [drops, starts])
  | release => exact hrelease
  | close => exact ⟨hrelease.image, hrelease.received, by simp [TbMedia.step, tbMediaClose]⟩
  | completed sequence response =>
    have hrefused : media.parses sequence response = true ∧
        ((parse env media response).1 = .corrupt ∨
          (parse env media response).1 = .memory) := by
      simpa [drops] using hdrops
    obtain ⟨hparses, hrefused⟩ := hrefused
    simp only [TbMedia.step, completed_eq, if_pos hparses]
    generalize parse env media response = parsed at hrefused ⊢
    obtain ⟨result, media₁⟩ := parsed
    rcases hrefused with rfl | rfl
    · exact dropped_corrupt env _
    · exact ⟨rfl, rfl, by simp [changed], by simp [changed]⟩

def TbMedia.takes (media : TbMedia) : TbMediaEnv × MediaEvent → Bool
  | (env, .completed sequence response) =>
    media.parses sequence response && !media.drops (env, .completed sequence response)
  | _ => false

theorem settles_of_not_takes (hdrops : media.drops event = false)
    (htakes : media.takes event = false) :
    Settles media (media.step event) ∧ media.chunksAfter chunks event = chunks := by
  obtain ⟨env, event⟩ := event
  cases event with
  | bind account chat message flags count =>
    have hbound : media.tbMediaBound account chat message = true := by
      simpa [drops] using hdrops
    simp only [chunksAfter, hdrops, TbMedia.step, TbMedia.tbMediaBind, if_pos hbound]
    exact ⟨Settles.refl media, rfl⟩
  | load =>
    have hloads : media.loads = false := hdrops
    simp only [chunksAfter, hdrops, TbMedia.step, tbMediaLoad_eq, hloads]
    exact ⟨Settles.refl media, rfl⟩
  | «show» index =>
    have hshows : media.shows index = false := hdrops
    simp only [chunksAfter, hdrops, TbMedia.step, tbMediaShow_eq, hshows]
    exact ⟨Settles.refl media, rfl⟩
  | reveal =>
    have hphase : media.phase ≠ .spoiler := by simpa [drops, starts] using hdrops
    simp only [chunksAfter, hdrops, TbMedia.step, TbMedia.tbMediaReveal, if_pos hphase]
    exact ⟨Settles.refl media, rfl⟩
  | retry =>
    have hphase : media.phase ≠ .error ∧ media.phase ≠ .noMemory ∧ media.phase ≠ .unavailable := by
      simpa [drops, starts, not_or] using hdrops
    simp only [chunksAfter, hdrops, TbMedia.step, TbMedia.tbMediaRetry, if_pos hphase]
    exact ⟨Settles.refl media, rfl⟩
  | timer =>
    refine ⟨?_, rfl⟩
    change Settles media (media.tbMediaTimer env)
    unfold TbMedia.tbMediaTimer
    split_ifs
    · exact Settles.refl media
    · exact ⟨rfl, rfl, rfl, rfl, .inl rfl⟩
    · have hloading : Settles media { media with due := 0, phase := .loading } :=
        ⟨rfl, rfl, rfl, rfl, .inr ⟨by simp, by simp⟩⟩
      exact (hloading.trans (settles_submit env _ 0)).trans (settles_changed _)
  | release | close => exact absurd hdrops (by simp [drops])
  | completed sequence response =>
    have hparses : media.parses sequence response = false := by
      simpa [takes, hdrops] using htakes
    simp only [chunksAfter, hdrops, TbMedia.step, completed_eq, hparses]
    refine ⟨?_, rfl⟩
    simp only [Bool.false_eq_true, if_false]
    split_ifs
    · exact Settles.refl media
    · exact (settles_abandon media sequence response).trans (settles_fail env _ _ _)

/-- **A call that takes records**: what they leave, and then the end of the response. -/
theorem step_of_takes {env : TbMediaEnv} {sequence : ℕ} {response : TbResponse}
    (htakes : media.takes (env, .completed sequence response) = true) :
    media.chunksAfter chunks (env, .completed sequence response) =
        parseChunks env response.payload.length (response.index = 0) media response.payload
          chunks ∧
      ((∃ media₁, parse env media response = (.ok, media₁) ∧
          media.step (env, .completed sequence response) = media₁.finish env response) ∨
        ∃ media₁, parse env media response = (.protocol, media₁) ∧
          Settles media₁ (media.step (env, .completed sequence response))) := by
  obtain ⟨hparses, hkept⟩ := Bool.and_eq_true_iff.mp htakes
  have hdrops : media.drops (env, .completed sequence response) = false := by simpa using hkept
  have htaken : (parse env media response).1 ≠ .corrupt ∧
      (parse env media response).1 ≠ .memory := by
    simpa [drops, hparses, not_or] using hdrops
  refine ⟨by simp [chunksAfter, hdrops, hparses], ?_⟩
  simp only [TbMedia.step, completed_eq, if_pos hparses]
  rcases hparse : parse env media response with ⟨result, media₁⟩
  rw [hparse] at htaken
  cases result with
  | ok => exact Or.inl ⟨media₁, rfl, rfl⟩
  | protocol =>
    exact Or.inr ⟨media₁, rfl,
      (settles_abandon media₁ sequence response).trans (settles_fail env _ _ _)⟩
  | corrupt => exact absurd rfl htaken.1
  | memory => exact absurd rfl htaken.2

theorem finish_cases (media : TbMedia) (response : TbResponse) :
    Settles media (media.finish env response) ∨
      media.phase = .transfer ∧ media.image.pixels ≠ none ∧ media.image.filled = media.image.size ∧
        media.received = media.total ∧
        media.finish env response = changed { media with pending := 0, phase := .ready } := by
  have hpending : Settles media { media with pending := 0 } := ⟨rfl, rfl, rfl, rfl, .inl rfl⟩
  unfold finish
  dsimp only
  split_ifs with hfinal hphase hfull
  · exact Or.inr ⟨hphase, hfull.1, hfull.2.1, hfull.2.2, rfl⟩
  · exact Or.inl (hpending.trans (settles_fail env _ _ _))
  · exact Or.inl (hpending.trans (settles_changed _))
  · exact Or.inl (settles_changed media)

theorem chunksAfter_of_drops (hdrops : media.drops event = true) :
    media.chunksAfter chunks event = [] := by
  obtain ⟨env, event⟩ := event
  cases event <;> simp [chunksAfter, hdrops]

theorem Streamed.step (h : Streamed media chunks)
    (henv : event.1.Lawful) : Streamed (media.step event) (media.chunksAfter chunks event) := by
  by_cases hdrops : media.drops event = true
  · rw [chunksAfter_of_drops hdrops]
    have hdropped := dropped_of_drops hdrops
    exact Streamed.nil hdropped.image hdropped.received
  rw [Bool.not_eq_true] at hdrops
  by_cases htakes : media.takes event = true
  · obtain ⟨env, event⟩ := event
    cases event with
    | completed sequence response =>
      obtain ⟨hchunks, ⟨media₁, hparse, hstep⟩ | ⟨media₁, hparse, hstep⟩⟩ := step_of_takes htakes
      · have hstream := Streamed.parseLoop henv _ h hparse (Or.inl rfl)
        rw [hchunks, hstep]
        rcases finish_cases env media₁ response with hsettles | ⟨-, -, -, -, hready⟩
        · exact hsettles.streamed hstream
        · rw [hready]
          exact hstream.congr rfl rfl rfl
      · rw [hchunks]
        exact hstep.streamed (Streamed.parseLoop henv _ h hparse (Or.inr rfl))
    | _ => cases htakes
  · rw [Bool.not_eq_true] at htakes
    obtain ⟨hsettles, hchunks⟩ := @settles_of_not_takes media chunks event hdrops htakes
    rw [hchunks]
    exact hsettles.streamed h

theorem streamed_of_run {config : TbMediaConfig} {events : List (TbMediaEnv × MediaEvent)}
    {log : TransferLog} (henv : ∀ event ∈ events, event.1.Lawful)
    (hrun : events.foldl stepLog (tbMediaInit config, {}) = (media, log)) :
    Streamed media log.chunks ∧ log.resumes ≤ tbMediaResumes := by
  suffices hall : ∀ (events : List (TbMediaEnv × MediaEvent)) (s : TbMedia × TransferLog),
      (∀ event ∈ events, event.1.Lawful) →
      Streamed s.1 s.2.chunks ∧ s.2.resumes = s.1.resumes ∧ s.1.resumes ≤ tbMediaResumes →
      Streamed (events.foldl stepLog s).1 (events.foldl stepLog s).2.chunks ∧
        (events.foldl stepLog s).2.resumes = (events.foldl stepLog s).1.resumes ∧
        (events.foldl stepLog s).1.resumes ≤ tbMediaResumes by
    have hend := hall events (tbMediaInit config, {}) henv
      ⟨Streamed.nil rfl rfl, rfl, Nat.zero_le _⟩
    rw [hrun] at hend
    exact ⟨hend.1, hend.2.1.trans_le hend.2.2⟩
  intro events
  induction events with
  | nil =>
    intro s _ h
    exact h
  | cons event events ih =>
    intro s henv h
    obtain ⟨hstream, hresumes, hle⟩ := h
    refine ih _ (fun e he => henv e (mem_cons_of_mem _ he)) ⟨?_, ?_⟩
    · exact hstream.step (henv event mem_cons_self)
    · exact resumes_step hresumes hle event

end Stream

end Watch
