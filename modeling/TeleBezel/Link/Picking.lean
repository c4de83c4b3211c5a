import TeleBezel.Link.TemplatesHeard

/-!
# Picking a template

The watch shows the templates that the phone has answered with, and names the one that is picked by its
place and the revision of the list. The phone makes the draft of what it has stored by then. Between
the two are the requests, which may arrive more than once or not at all, and the chunks of the answers,
which arrive in order as far as they do; the settings may change, the phone may start anew, and the
server may answer or not.
-/

namespace Picking

open Phone Phone.Codec Phone.Templates Watch Watch.TextReader Watch.Composing Wire Texts Function

/-! ### What is sent -/

/-- The quick replies that the server has answered with, and the settings they were asked with. -/
structure Listing where
  value : Settings
  replies : Replies
deriving DecidableEq

section

variable (normalize : JsString → JsString)

/-- The snapshot that the phone answers from. -/
def Listing.snapshot (listing : Listing) : Snapshot :=
  snapshotOf normalize listing.value listing.replies

/-- The quick replies that are templates: of the first fifty, those that have a text. -/
def Listing.quickReplies (listing : Listing) : List JsString :=
  (listing.replies.texts.take 50).filter fun text => canonical normalize text ≠ []

/-- What `quickReplies` answers with: the list of the server, or else what is stored of the settings. -/
def loadedListing (stored : Option Listing) (value : Settings) : Result → Except ℤ (Listing × Bool)
  | .failed code =>
    match stored.filter fun cached => fingerprint cached.value = fingerprint value with
    | some cached => .ok (cached, true)
    | none => .error code
  | .malformed =>
    match stored.filter fun cached => fingerprint cached.value = fingerprint value with
    | some cached => .ok (cached, true)
    | none => .error protocolError
  | .ok replies => .ok (⟨value, replies⟩, false)

end

/-- What was shown when a template was picked: the list that the previews are of, and the preview. -/
structure Picked where
  source : Option Listing
  preview : CString
deriving DecidableEq

/-- The requests of the composition. That of a draft of a template carries the revision and the index;
what was shown is noted with it. -/
inductive Request
  | templates
  | pick (revision index : ℕ) (picked : Picked)
  | dictated (text : List UInt8)
deriving DecidableEq

/-- An answer of the phone: an error, the templates of a list, or a draft. -/
inductive Answer
  | refused (code : ℤ)
  | templates (listing : Listing) (stale : Bool) (inboxSize : ℕ)
  | draft (id : ℕ) (text : JsString) (inboxSize : ℕ)
deriving DecidableEq

/-- The chunks of an answer. -/
def Answer.messages (normalize : JsString → JsString) (config : TbComposeConfig) :
    Answer → List TbResponse
  | .refused code => [{ outcome := .response, result := code }]
  | .templates listing stale inboxSize =>
    templatesAnswer normalize config (listing.snapshot normalize) stale inboxSize
  | .draft id text inboxSize => Texts.draft normalize id text config.textLimit inboxSize

/-- The preview that the window shows at an index. -/
def tbComposeTemplate (compose : TbCompose) (index : ℕ) : CString :=
  match compose.previews with
  | none => []
  | some previews => if compose.templateCount ≤ index then [] else previews.getD index []

/-! ### The watch and the phone -/

/-- The watch, the phone, and what is between them. -/
structure State where
  compose : TbCompose
  requests : ℕ → Option Request := fun _ => none
  /-- The chunk that the request layer waits for, of a request that it has not completed. -/
  expected : ℕ → Option ℕ := fun _ => none
  /-- The chunks that are on their way to the watch: each is so many of an answer. -/
  channel : ℕ → List (Answer × ℕ) := fun _ => []
  settings : Option Settings := none
  /-- What is stored under `TEMPLATES_KEY`. -/
  stored : Option Listing := none
  /-- What is stored under `COUNTER_KEY`. -/
  counter : ℕ := 0
  /-- The calls of `quickReplies` that have not returned. -/
  loads : List (ℕ × Settings) := []
  /-- The list that the previews of the watch are of. -/
  shown : Option Listing := none
  /-- The answer that the last chunk for a request was of. -/
  heard : ℕ → Option Answer := fun _ => none
  /-- The request that the draft of the watch is of. -/
  drafting : Option ℕ := none

/-- What happens on either side, or between them. -/
inductive Event
  /-- The watch calls the composition, but for the answers to its requests. -/
  | user (event : Composing.Event) (env : Composing.Env)
  /-- The next chunk for a request arrives at the watch. -/
  | deliver (sequence : ℕ) (env : Composing.Env)
  /-- The chunks on their way for a request are lost. -/
  | drop (sequence : ℕ)
  /-- The request layer completes a request without a response. -/
  | ended (sequence : ℕ) (outcome : TbRequestOutcome) (env : Composing.Env)
  /-- A request arrives at the phone, which may reject it for its other fields. -/
  | arrive (sequence : ℕ) (rejected : Option ℤ) (storage : Bool) (inboxSize : ℕ)
  /-- A call of `quickReplies` returns, and the templates are stored or not. -/
  | replied (load : ℕ) (result : Result) (written : Bool) (inboxSize : ℕ)
  | settings (value : Option Settings)
  /-- The templates that are stored are lost. -/
  | forget
  /-- The phone starts anew. -/
  | restart

def configMissing : ℤ := 1

namespace State

variable (normalize : JsString → JsString) (decodeUtf8 : List UInt8 → JsString) (s : State)

/-- The composition after a call; the request that it made is noted under its number. -/
def composed (compose : TbCompose) (env : Composing.Env) (request : Request) : State :=
  let sequence := env.submitted.sequence
  if sequence ≠ 0 ∧ compose.templatesPending = sequence then
    { s with
      compose
      requests := update s.requests sequence (some .templates)
      expected := update s.expected sequence (some 0) }
  else if sequence ≠ 0 ∧ compose.draftPending = sequence then
    { s with
      compose
      requests := update s.requests sequence (some request)
      expected := update s.expected sequence (some 0) }
  else { s with compose }

/-- The request that a call of the user makes. -/
def requestOf : Composing.Event → Request
  | .pick index =>
    .pick s.compose.templatesRev index ⟨s.shown, tbComposeTemplate s.compose index⟩
  | .dictated text => .dictated text
  | _ => .templates

/-- The request whose draft is wanted after a call of the user. -/
def draftingAfter (event : Composing.Event) (env : Composing.Env) : Option ℕ :=
  let submitted := if env.submitted.sequence = 0 then none else some env.submitted.sequence
  match event with
  | .open target => if target.account = [] ∨ target.chat = [] then s.drafting else none
  | .pick index =>
    if ¬ s.compose.opened ∨ s.compose.templateCount ≤ index then s.drafting else submitted
  | .dictated text =>
    if ¬ s.compose.opened ∨ text = [] then s.drafting
    else if tbComposeDraftLimit < text.length ∨ env.malloc = false then none
    else submitted
  | .dropDraft | .close _ => none
  | .loadTemplates | .response _ _ _ => s.drafting

/-- A call of the user. -/
def user (event : Composing.Event) (env : Composing.Env) : State :=
  match event with
  | .response _ _ _ => s
  | _ =>
    { s.composed (Composing.step s.compose (event, env)) env (s.requestOf event) with
      drafting := s.draftingAfter event env }

variable (sequence : ℕ)

/-- The request layer calls back with a response. -/
def respond (response : TbResponse) (env : Composing.Env) : State :=
  match s.requests sequence with
  | none => s
  | some .templates =>
    s.composed (s.compose.templatesDone env sequence response) env .templates
  | some _ => s.composed (s.compose.draftDone env sequence response) env .templates

/-- The list that is shown once a chunk has come. -/
def shownAfter (answer : Answer) (index : ℕ) : Option Listing :=
  match answer with
  | .templates listing _ _ =>
    if s.requests sequence = some .templates ∧ sequence = s.compose.templatesPending ∧ index = 0 then
      some listing
    else s.shown
  | _ => s.shown

/-- `tb_requests_chunk`: a chunk that is not the one expected ends the request. -/
def deliver (env : Composing.Env) : State :=
  match s.channel sequence with
  | [] => s
  | (answer, index) :: rest =>
    let taken : State := { s with channel := update s.channel sequence rest }
    match s.expected sequence, (answer.messages normalize s.compose.config)[index]? with
    | none, _ => taken
    | some _, none => s
    | some next, some response =>
      if index ≠ next then
        { taken with expected := update s.expected sequence none }.respond sequence
          { outcome := .protocol } env
      else
        { taken with
          expected := update s.expected sequence
            (if response.final then none else some (next + 1))
          heard := update s.heard sequence (some answer)
          shown := s.shownAfter sequence answer index }.respond sequence response env

/-- A request is given up by the request layer. -/
def ended (outcome : TbRequestOutcome) (env : Composing.Env) : State :=
  if outcome = .response then s
  else { s with expected := update s.expected sequence none }.respond sequence
    { outcome } env

/-- The chunks of an answer set out. -/
def send (answer : Answer) : State :=
  let chunks := (List.range (answer.messages normalize s.compose.config).length).map (answer, ·)
  { s with channel := update s.channel sequence (s.channel sequence ++ chunks) }

/-- The end of `draft`, once there is a text. -/
def drafted (raw : JsString) (storage : Bool) (inboxSize : ℕ) : State :=
  let text := canonical normalize raw
  if text = [] then s.send normalize sequence (.refused protocolError)
  else
    -- `nextDraftId`
    let id := (if storage ∧ 0 < s.counter ∧ s.counter < 0xFFFFFFF0 then s.counter else 0) + 1
    { s with counter := if storage then id else s.counter }.send normalize sequence
      (.draft id text inboxSize)

/-- A request arrives at the phone: `templates` and `draft`. -/
def arrive (rejected : Option ℤ) (storage : Bool) (inboxSize : ℕ) : State :=
  match s.requests sequence, rejected with
  | none, _ => s
  | some .templates, _ =>
    match s.settings with
    | none => s.send normalize sequence (.refused configMissing)
    | some value => { s with loads := s.loads ++ [(sequence, value)] }
  | some _, some code => s.send normalize sequence (.refused code)
  | some (.dictated text), none => s.drafted normalize sequence (decodeUtf8 text) storage inboxSize
  | some (.pick revision index _), none =>
    match pickSource (s.stored.map (Listing.snapshot normalize)) s.settings revision index with
    | none => s.send normalize sequence (.refused cursorLost)
    | some raw => s.drafted normalize sequence raw storage inboxSize

/-- What is stored after a reply of the API. -/
def storedAfter (value : Settings) (written : Bool) : Result → Option Listing
  | .ok replies => if written then some ⟨value, replies⟩ else s.stored
  | _ => s.stored

/-- A call of `quickReplies` returns. -/
def replied (load : ℕ) (result : Result) (written : Bool) (inboxSize : ℕ) : State :=
  match s.loads[load]? with
  | none => s
  | some (sequence, value) =>
    let answer := match loadedListing s.stored value result with
      | .error code => .refused code
      | .ok (listing, stale) => .templates listing stale inboxSize
    { s with
      loads := s.loads.eraseIdx load
      stored := s.storedAfter value written result }.send normalize sequence answer

/-- One event. -/
def step : Event → State
  | .user event env => s.user event env
  | .deliver sequence env => s.deliver normalize sequence env
  | .drop sequence => { s with channel := update s.channel sequence [] }
  | .ended sequence outcome env => s.ended sequence outcome env
  | .arrive sequence rejected storage inboxSize =>
    s.arrive normalize decodeUtf8 sequence rejected storage inboxSize
  | .replied load result written inboxSize => s.replied normalize load result written inboxSize
  | .settings value => { s with settings := value }
  | .forget => { s with stored := none }
  | .restart => { s with loads := [], channel := fun _ => [] }

end State

/-! ### The condition -/

section Condition

variable {ι : Type} [DecidableEq ι] (server : Settings → ι) (quickReplies : ι → ℤ → List JsString)
  (normalize : JsString → JsString)

/-- The revision of a list says what is in it, for its server. -/
def Identified (listing : Listing) : Prop :=
  match listing.replies.revision with
  | none => True
  | some revision => listing.replies.texts = quickReplies (server listing.value) revision

instance (listing : Listing) : Decidable (Identified server quickReplies listing) :=
  match h : listing.replies.revision with
  | none => .isTrue (by rw [Identified, h]; trivial)
  | some revision =>
    decidable_of_iff (listing.replies.texts = quickReplies (server listing.value) revision)
      (by rw [Identified, h])

/-- The list has a revision, which the phone and the watch know whole. -/
def Numbered (listing : Listing) : Prop :=
  listing.replies.revision.any (fun revision => 0 ≤ revision && revision < 2 ^ 32) = true

/-- Both lists are of one server, and numbered. Whether they are of one revision is for the phone to
see. -/
def Same : Option Listing → Option Listing → Prop
  | some listing, some listing' =>
    server listing.value = server listing'.value ∧ Numbered listing ∧ Numbered listing'
  | _, _ => False

instance : ∀ stored source, Decidable (Same server stored source)
  | some _, some _ => inferInstanceAs (Decidable (_ ∧ (_ = true) ∧ (_ = true)))
  | none, none | none, some _ | some _, none => .isFalse id

variable (s : State)

/-- The number that the request layer gives is a new one. -/
def Fresh (env : Composing.Env) : Prop :=
  env.submitted.sequence = 0 ∨ s.requests env.submitted.sequence = none

instance (s : State) (env : Composing.Env) : Decidable (Fresh s env) :=
  inferInstanceAs (Decidable (_ ∨ _))

/-- The list that a template is drafted from is of the server of the one that was shown, and the
template is canonical. -/
def Drawn : Option Request → Prop
  | some (.pick revision index picked) =>
    match pickSource (s.stored.map (Listing.snapshot normalize)) s.settings revision index with
    | none => True
    | some raw => Same server s.stored picked.source ∧ canonical normalize raw = raw
  | _ => True

instance (s : State) : ∀ request, Decidable (Drawn server normalize s request)
  | some (.pick revision index picked) =>
    match h : pickSource (s.stored.map (Listing.snapshot normalize)) s.settings revision index with
    | none => .isTrue (by rw [Drawn, h]; trivial)
    | some raw => decidable_of_iff (Same server s.stored picked.source ∧ canonical normalize raw = raw)
        (by rw [Drawn, h])
  | some .templates | some (.dictated _) | none => .isTrue trivial

/-- What is taken for granted: equal revisions of one server mean equal lists, and no number is given to
two requests. -/
def Assumes : Event → Prop
  | .user _ env => Fresh s env
  | .deliver _ env => Fresh s env
  | .ended _ _ env => Fresh s env
  | .replied load (.ok replies) _ _ =>
    ∀ entry ∈ s.loads[load]?, Identified server quickReplies ⟨entry.2, replies⟩
  | _ => True

instance (s : State) : ∀ event, Decidable (Assumes server quickReplies s event)
  | .user _ _ | .deliver _ _ | .ended _ _ _ => inferInstanceAs (Decidable (Fresh _ _))
  | .replied _ (.ok _) _ _ => inferInstanceAs (Decidable (∀ entry ∈ s.loads[_]?, _))
  | .arrive _ _ _ _ | .replied _ (.failed _) _ _ | .replied _ .malformed _ _ | .drop _
  | .settings _ | .forget | .restart => .isTrue trivial

/-- A draft of a template is made as `Drawn` says. -/
def Draws : Event → Prop
  | .arrive sequence none _ _ => Drawn server normalize s (s.requests sequence)
  | _ => True

instance (s : State) : ∀ event, Decidable (Draws server normalize s event)
  | .arrive sequence none _ _ => inferInstanceAs (Decidable (Drawn _ _ _ (s.requests sequence)))
  | .user _ _ | .deliver _ _ | .ended _ _ _ | .arrive _ (some _) _ _ | .replied _ _ _ _ | .drop _
  | .settings _ | .forget | .restart => .isTrue trivial

/-- What a step must meet for the reply that is drafted to be the one that was picked. -/
def Meets (event : Event) : Prop :=
  Assumes server quickReplies s event ∧ Draws server normalize s event

instance (s : State) (event : Event) : Decidable (Meets server quickReplies normalize s event) :=
  inferInstanceAs (Decidable (_ ∧ _))

end Condition

end Picking
