import TeleBezel.Image.Decoder
import TeleBezel.Watch.Requests

/-!
# The media view of the watch

`app/src/c/media.c` fetches one image: it asks the phone for it, feeds the records of the
responses to the decoder, resumes an interrupted transfer and starts a corrupt one once more. Its
state is `TbMedia`; the request layer, the clock, the heap and the timer are the environment of
each call, and what the view calls on them is kept in `calls`.
-/

namespace Watch

open Word

inductive TbMediaPhase
  | none
  | idle
  | loading
  | waiting
  | transfer
  | ready
  | spoiler
  | restricted
  | unsupported
  | unavailable
  | noMemory
  | error
deriving DecidableEq

/-- `TbMediaConfig`; whether it has a `heap_free` is part of the environment. -/
structure TbMediaConfig where
  width : ℕ := 0
  height : ℕ := 0
  shape : ℕ := 0
  formats : ℕ := 0
  maxBudget : ℕ := 0
  reserve : ℕ := 0
  minBudget : ℕ := 0
  timeout : ℕ := 0
  waitLimit : ℕ := 0

/-- What the view calls: the request layer, its timer port and its `changed` port. -/
inductive MediaCall
  | request (account chat message : CString) (index : ℕ) (spec : List ℕ) (offset tag : ℕ)
  | requestCancel
  | cancel (sequence : ℕ)
  | schedule (milliseconds : ℕ)
  | cancelTimer
  | changed

structure TbMediaEnv where
  submitted : Submitted := ⟨0, .timeout⟩
  malloc : ℕ → Option (List UInt8) := fun n => some (List.replicate n 0)
  heapFree : Option ℕ := none
  now : ℕ := 0

/-- `TbMedia`, with the calls it has made. -/
structure TbMedia where
  config : TbMediaConfig := {}
  account : CString := []
  chat : CString := []
  message : CString := []
  item : CString := []
  index : ℕ := 0
  count : ℕ := 0
  flags : ℕ := 0
  serverState : ℕ := 0
  reveal : Bool := false
  revealed : Bool := false
  phase : TbMediaPhase := .none
  error : ℤ := 0
  pending : ℕ := 0
  tag : ℕ := 0
  total : ℕ := 0
  received : ℕ := 0
  budget : ℕ := 0
  resumes : ℕ := 0
  crcRetry : Bool := false
  started : ℕ := 0
  due : ℕ := 0
  image : TbImageDecoder := {}
  revision : ℕ := 0
  calls : List MediaCall := []

inductive TbFeed
  | ok
  | protocol
  | corrupt
  | memory
deriving DecidableEq

def tbMediaResumes : ℕ := 2

def tbMediaPollMin : ℕ := 1000

namespace TbMedia

variable (media : TbMedia)

def changed : TbMedia :=
  { media with revision := uint32 (media.revision + 1), calls := media.calls ++ [.changed] }

def dropPixels : TbMedia :=
  { media with image := tbImageReset, received := 0, tag := 0, total := 0 }

/-- `cancel_pending`. The callback that the cancelled request gets is of no effect: it finds no
request pending. -/
def cancelPending : TbMedia :=
  if media.pending = 0 then media
  else { media with pending := 0, calls := media.calls ++ [.cancel media.pending, .requestCancel] }

def spec : List ℕ :=
  [media.config.width &&& 0xFF, media.config.width >>> 8, media.config.height &&& 0xFF,
    media.config.height >>> 8, media.config.shape ||| (if media.reveal then 0x80 else 0),
    media.config.formats, media.budget &&& 0xFF, media.budget >>> 8]

def request (offset : ℕ) : MediaCall :=
  .request (strncpy tbAccountIdSize media.account) (strncpy tbTelegramIdSize media.chat)
    (strncpy tbTelegramIdSize media.message) media.index media.spec offset
    (if offset = 0 then 0 else media.tag)

variable (env : TbMediaEnv)

def submit (media : TbMedia) (offset : ℕ) : TbMedia :=
  let media := { media with
    error := tbErrorNone
    pending := env.submitted.sequence
    calls := media.calls ++ [media.request offset] }
  if media.pending = 0 then
    { media with phase := .error, error := tbErrorSubmitFailed env.submitted }
  else media

/-- The budget that `start` finds: what is free beyond the reserve, up to the largest. -/
def budgetOf (media : TbMedia) : ℕ :=
  let available := env.heapFree.getD (media.config.maxBudget + media.config.reserve)
  let budget := if media.config.reserve < available then available - media.config.reserve else 0
  if media.config.maxBudget < budget then media.config.maxBudget else budget

def start (media : TbMedia) : TbMedia :=
  let media := media.cancelPending.dropPixels
  let media := { media with calls := media.calls ++ [MediaCall.cancelTimer], due := 0, resumes := 0 }
  let budget := budgetOf env media
  if budget < media.config.minBudget then changed { media with phase := .noMemory }
  else
    let media := { media with
      budget := uint16 (budget - budget % 1024 : ℕ), started := env.now, phase := .loading }
    changed (submit env media 0)

def fail (media : TbMedia) (error : ℤ) (outcome : TbRequestOutcome) : TbMedia :=
  let media := { media with pending := 0 }
  let transport := outcome = .timeout ∨ outcome = .unreachable ∨ outcome = .protocol
  if transport ∧ media.phase = .transfer ∧ 0 < media.received ∧ media.resumes < tbMediaResumes then
    changed (submit env { media with resumes := media.resumes + 1 } media.received)
  else
    changed { media with
      phase := if error = tbResultMessageUnavailable then .unavailable else .error
      error := error }

def corrupt (media : TbMedia) : TbMedia :=
  let media := { media with pending := 0 }
  if media.crcRetry = false then start env { media with crcRetry := true }
  else changed { media.dropPixels with phase := .error, error := tbResultProtocolError }

def waitFor (media : TbMedia) (retryAfter : ℕ) : TbMedia :=
  if media.config.waitLimit ≤ uint32 (env.now - media.started) then
    { media with phase := .error, error := tbErrorNoResponse }
  else
    let delay := if tbMediaPollMin < retryAfter * 1000 then retryAfter * 1000 else tbMediaPollMin
    { media with
      phase := .waiting
      due := uint32 (env.now + delay)
      calls := media.calls ++ [.schedule delay] }

/-- The part of `info` that every state of the server shares. -/
def describe (record : TbMediaInfoRecord) : TbMedia :=
  { media with
    count := if record.count = 0 then 1 else record.count
    flags := record.flags
    serverState := record.state
    item := (tbCopyId media.item tbTelegramIdSize record.item false).2 }

/-- The part of `info` for an image that is ready on the server: another tag starts anew. -/
def announce (record : TbMediaInfoRecord) : TbMedia :=
  { media with
    image := if record.tag ≠ media.tag then tbImageReset else media.image
    received := if record.tag ≠ media.tag then 0 else media.received
    tag := record.tag
    total := record.total
    phase := .transfer }

/-- `info`. The states of the server are numbered from `ready`. -/
def info (media : TbMedia) (record : TbMediaInfoRecord) : Bool × TbMedia :=
  let media := media.describe record
  match record.state with
  | 0 => (decide (0 < record.total), media.announce record)
  | 1 => (true, waitFor env media record.retryAfter)
  | 2 => (true, waitFor env media record.retryAfter)
  | 3 => (true, { media with phase := .spoiler })
  | 4 => (true, { media with phase := .restricted })
  | 5 => (true, { media with phase := .unsupported })
  | 6 => (true, { media with phase := .unavailable })
  | _ => (true, { media with phase := .none })

/-- The loop of `feed` over the data of a record, with what it leaves of them. Every round but
the last uses a byte, so that their number is fuel enough. -/
def feedLoop (env : TbMediaEnv) : ℕ → TbMedia → List UInt8 → TbFeed × TbMedia × List UInt8
  | 0, media, data => (.ok, media, data)
  | fuel + 1, media, data =>
    if data = [] then (.ok, media, data)
    else
      let fed := tbImageFeed media.image data
      let media := { media with image := fed.decoder }
      let rest := data.drop fed.used
      match fed.status with
      | .bad => (.corrupt, media, rest)
      | .headerReady =>
        if media.image.header.tag ≠ media.tag ∨ media.budget < media.image.size then
          (.corrupt, media, rest)
        else
          match env.malloc media.image.size with
          | none => (.memory, media, rest)
          | some pixels =>
            feedLoop env fuel { media with image := { media.image with pixels := some pixels } } rest
      | .done => (.ok, media, rest)
      | .more => feedLoop env fuel media rest

def feed (media : TbMedia) (record : TbMediaDataRecord) : TbFeed × TbMedia :=
  if media.phase ≠ .transfer ∨ record.offset ≠ media.received then (.protocol, media)
  else
    match feedLoop env record.data.length media record.data with
    | (.ok, media, rest) =>
      if rest ≠ [] then (.corrupt, media)
      else (.ok, { media with received := uint32 (media.received + record.data.length : ℕ) })
    | (result, media, _) => (result, media)

/-- The loop of `parse`: every record takes bytes, so that their number is fuel enough. -/
def parseLoop (env : TbMediaEnv) : ℕ → Bool → TbMedia → TbCursor → TbFeed × TbMedia
  | 0, _, media, _ => (.ok, media)
  | fuel + 1, first, media, cursor =>
    if cursor = [] then (.ok, media)
    else
      match tbCodecNext cursor with
      | none => (.protocol, media)
      | some (type, body, rest) =>
        if type = tbRecordMediaInfo ∧ first = true then
          match tbCodecMediaInfo body with
          | none => (.protocol, media)
          | some record =>
            match info env media record with
            | (true, media) => parseLoop env fuel false media rest
            | (false, media) => (.protocol, media)
        else if type = tbRecordMediaData then
          match tbCodecMediaData body with
          | none => (.protocol, media)
          | some record =>
            match feed env media record with
            | (.ok, media) => parseLoop env fuel false media rest
            | (result, media) => (result, media)
        else (.protocol, media)

def parse (media : TbMedia) (response : TbResponse) : TbFeed × TbMedia :=
  parseLoop env response.payload.length (response.index = 0) media response.payload

def abandon (sequence : ℕ) (response : TbResponse) : TbMedia :=
  if response.final then media
  else { media with pending := 0, calls := media.calls ++ [.cancel sequence] }

/-- The end of `completed`, once the records of a response are taken. -/
def finish (media : TbMedia) (response : TbResponse) : TbMedia :=
  if response.final then
    let media := { media with pending := 0 }
    if media.phase = .transfer then
      if media.image.pixels ≠ none ∧ media.image.filled = media.image.size ∧
          media.received = media.total then
        changed { media with phase := .ready }
      else fail env media tbResultProtocolError .protocol
    else changed media
  else changed media

def completed (media : TbMedia) (sequence : ℕ) (response : TbResponse) : TbMedia :=
  if sequence ≠ media.pending ∨ response.outcome = .cancelled then media
  else if response.outcome ≠ .response ∨ response.result ≠ tbResultOk then
    fail env (media.abandon sequence response) (tbErrorFromResponse response) response.outcome
  else
    match parse env media response with
    | (.ok, media) => finish env media response
    | (.corrupt, media) => corrupt env (media.abandon sequence response)
    | (.memory, media) =>
      changed { (media.abandon sequence response).dropPixels with pending := 0, phase := .noMemory }
    | (.protocol, media) =>
      fail env (media.abandon sequence response) tbResultProtocolError .protocol

def tbMediaInit (config : TbMediaConfig) : TbMedia := { config := config }

def tbMediaBound (account chat message : CString) : Bool :=
  media.account ≠ [] && media.account = account && media.chat = chat && media.message = message

def initialPhase (flags : ℕ) : TbMediaPhase :=
  if flags &&& tbMediaFlagImage = 0 then
    if flags &&& tbMediaFlagRestricted ≠ 0 then .restricted else .none
  else if flags &&& tbMediaFlagRestricted ≠ 0 then .restricted
  else if flags &&& tbMediaFlagSpoiler ≠ 0 then .spoiler
  else .idle

def tbMediaRelease : TbMedia :=
  let media := media.cancelPending
  let media := { media with calls := media.calls ++ [MediaCall.cancelTimer], due := 0 }
  let media := media.dropPixels
  if media.phase = .loading ∨ media.phase = .waiting ∨ media.phase = .transfer ∨
      media.phase = .ready then { media with phase := .idle }
  else media

def tbMediaClose : TbMedia :=
  { media.tbMediaRelease with
    account := []
    chat := []
    message := []
    item := []
    index := 0
    count := 0
    flags := 0
    reveal := false
    revealed := false
    phase := .none
    error := tbErrorNone }

def tbMediaBind (account chat message : CString) (flags count : ℕ) : TbMedia :=
  if media.tbMediaBound account chat message then media
  else
    changed { media.tbMediaClose with
      account := strncpy tbAccountIdSize account
      chat := strncpy tbTelegramIdSize chat
      message := strncpy tbTelegramIdSize message
      flags := flags
      count := if count = 0 then 1 else count
      index := 0
      phase := initialPhase flags }

def tbMediaLoad (media : TbMedia) : TbMedia :=
  if media.account = [] ∨ media.phase = .none ∨ media.phase = .restricted then media
  else if media.phase = .spoiler ∧ media.reveal = false then media
  else if media.pending ≠ 0 ∨ media.phase = .ready ∨ media.phase = .waiting then media
  else start env { media with crcRetry := false }

def tbMediaShow (media : TbMedia) (index : ℕ) : TbMedia :=
  if media.account = [] ∨ media.count ≤ index ∨ index = media.index then media
  else
    let media := { media.tbMediaRelease with
      index := index
      reveal := false
      phase := if media.flags &&& tbMediaFlagRestricted ≠ 0 then .restricted else .idle }
    changed (tbMediaLoad env media)

def tbMediaReveal (media : TbMedia) : TbMedia :=
  if media.phase ≠ .spoiler then media
  else
    start env { media with reveal := true, revealed := true, phase := .idle, crcRetry := false }

def tbMediaRetry (media : TbMedia) : TbMedia :=
  if media.phase ≠ .error ∧ media.phase ≠ .noMemory ∧ media.phase ≠ .unavailable then media
  else start env { media with crcRetry := false }

/-- `tb_media_timer`. The difference of the clock and the due time is a signed word. -/
def tbMediaTimer (media : TbMedia) : TbMedia :=
  if media.phase ≠ .waiting ∨ media.due = 0 then media
  else if 2 ^ 31 ≤ uint32 (env.now - media.due) then
    { media with calls := media.calls ++ [.schedule (uint32 (media.due - env.now))] }
  else changed (submit env { media with due := 0, phase := .loading } 0)

end TbMedia

inductive MediaEvent
  | bind (account chat message : CString) (flags count : ℕ)
  | load
  | show (index : ℕ)
  | reveal
  | retry
  | timer
  | release
  | close
  | completed (sequence : ℕ) (response : TbResponse)

def TbMedia.step (media : TbMedia) : TbMediaEnv × MediaEvent → TbMedia
  | (_, .bind account chat message flags count) => media.tbMediaBind account chat message flags count
  | (env, .load) => media.tbMediaLoad env
  | (env, .show index) => media.tbMediaShow env index
  | (env, .reveal) => media.tbMediaReveal env
  | (env, .retry) => media.tbMediaRetry env
  | (env, .timer) => media.tbMediaTimer env
  | (_, .release) => media.tbMediaRelease
  | (_, .close) => media.tbMediaClose
  | (env, .completed sequence response) => media.completed env sequence response

end Watch
