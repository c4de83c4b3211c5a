import TeleBezel.Link.Picking
import Mathlib.Data.List.Range

/-!
# What holds while a template is picked

The requests of the watch and the answers of the phone, the templates that the watch shows, and the
draft: what holds of each of them in every state, and what the calls of the composition, the arrival of
a request at the phone and the answers of the server do to it. That a chunk is taken is left to the
next module.
-/

open List

namespace Picking

open Phone Phone.Codec Phone.Templates Watch Watch.TextReader Watch.Composing Wire Texts Transition Function

variable {ι : Type} (server : Settings → ι) (quickReplies : ι → ℤ → List JsString)
  (normalize : JsString → JsString)

/-! ### The lists -/

theorem items_snapshot (listing : Listing) : (listing.snapshot normalize).items =
    (listing.quickReplies normalize).map (canonical normalize) := by
  show ((listing.replies.texts.take 50).map (canonical normalize)).filter _ = _
  rw [filter_map]
  rfl

theorem Numbered.revision {listing : Listing} (h : Numbered listing) (normalize : JsString → JsString) :
    ∃ revision, listing.replies.revision = some revision ∧
      ((listing.snapshot normalize).revision : ℤ) = revision ∧
      (listing.snapshot normalize).revision < 2 ^ 32 := by
  rw [Numbered, Option.any_eq_true] at h
  obtain ⟨revision, hrevision, hrange⟩ := h
  simp only [Bool.and_eq_true, decide_eq_true_eq] at hrange
  have hsnapshot : (listing.snapshot normalize).revision = (revision % 2 ^ 32).toNat := by
    rw [Listing.snapshot, snapshotOf, hrevision]
    rfl
  exact ⟨revision, hrevision, by omega, by omega⟩

/-- Two lists of one server are the same, if the phone finds that their revisions are. -/
theorem quickReplies_eq {l listing : Listing} (hsame : Same server (some l) (some listing))
    (hrevision : (l.snapshot normalize).revision % 2 ^ 32 =
      (listing.snapshot normalize).revision % 2 ^ 32)
    (hl : Identified server quickReplies l) (hlisting : Identified server quickReplies listing) :
    l.quickReplies normalize = listing.quickReplies normalize := by
  obtain ⟨hserver, hnumbered, hnumbered'⟩ := hsame
  obtain ⟨revision, hthis, hvalue, hlt⟩ := hnumbered.revision normalize
  obtain ⟨revision', hthis', hvalue', hlt'⟩ := hnumbered'.revision normalize
  obtain rfl : revision = revision' := by omega
  rw [Identified, hthis] at hl
  rw [Identified, hthis'] at hlisting
  rw [Listing.quickReplies, Listing.quickReplies, hl, hlisting, hserver]

/-! ### The chunks of an answer -/

/-- The chunks of an answer carry its records in groups, none of them empty. -/
structure Laid (items : List TextItem) (messages : List TbResponse) (groups : List (List TextItem)) :
    Prop where
  flatten : groups.flatten = items
  full : ∀ group ∈ groups, group ≠ []
  messages : messages =
    (groups.map (·.flatMap (Item.bytes (Phone.Text.encode normalize)))).zipIdx.map
      (reply groups.length)

variable {normalize}

theorem laid_respond {items : List TextItem} (hitems : items ≠ []) (budget : ℕ) : ∃ groups,
    Laid normalize items (respond (items.map (Item.bytes (Phone.Text.encode normalize))) budget)
      groups := by
  have hnonempty : ∀ item ∈ items, item.bytes (Phone.Text.encode normalize) ≠ [] := by
    intro item _
    rw [Item.bytes, Codec.record, append_assoc]
    exact cons_ne_nil _ _
  obtain ⟨groups, hflatten, hpack, hfull⟩ := pack_groups_full (ofLength budget) hnonempty
  refine ⟨groups, hflatten, hfull hitems, ?_⟩
  rw [respond, hpack, length_map]

section Laid

variable {items : List TextItem} {messages : List TbResponse} {groups : List (List TextItem)}
  {index : ℕ} {response : TbResponse}

section

variable (h : Laid normalize items messages groups)
include h

theorem Laid.chunk
    (hresponse : messages[index]? = some response) : ∃ group, groups[index]? = some group ∧
      response = reply groups.length
        (group.flatMap (Item.bytes (Phone.Text.encode normalize)), index) := by
  rw [h.messages, List.getElem?_map, Option.map_eq_some_iff] at hresponse
  obtain ⟨⟨payload, position⟩, hentry, rfl⟩ := hresponse
  rw [List.getElem?_zipIdx, Option.map_eq_some_iff] at hentry
  obtain ⟨_, hgroup, hpair⟩ := hentry
  obtain ⟨rfl, rfl⟩ := Prod.mk.inj hpair
  rw [List.getElem?_map, Option.map_eq_some_iff] at hgroup
  obtain ⟨group, hgroup, rfl⟩ := hgroup
  rw [Nat.zero_add]
  exact ⟨group, hgroup, rfl⟩

theorem Laid.drop {group : List TextItem}
    (hgroup : groups[index]? = some group) :
    ∃ rest, items.drop (groups.take index).flatten.length = group ++ rest ∧
      (groups.take (index + 1)).flatten.length =
        (groups.take index).flatten.length + group.length := by
  have hsplit : groups = groups.take index ++ group :: groups.drop (index + 1) := by
    obtain ⟨hlt, hget⟩ := List.getElem?_eq_some_iff.1 hgroup
    rw [← hget, getElem_cons_drop, take_append_drop]
  refine ⟨(groups.drop (index + 1)).flatten, ?_, ?_⟩
  · have hitems : items = (groups.take index).flatten ++
        (group ++ (groups.drop (index + 1)).flatten) := by
      rw [← flatten_cons, ← flatten_append, ← hsplit, h.flatten]
    conv_lhs => rw [hitems]
    exact drop_left
  · rw [take_add_one, hgroup, flatten_append, length_append]
    show _ + ([group].flatten).length = _
    rw [flatten_cons, flatten_nil, append_nil]

theorem Laid.pos (hindex : index < groups.length) :
    0 < (groups.take (index + 1)).flatten.length := by
  cases groups with
  | nil => cases hindex
  | cons group groups =>
    have hgroup := length_pos_of_ne_nil (h.full group mem_cons_self)
    rw [take_succ_cons, flatten_cons, length_append]
    omega

end

end Laid

/-! ### The composition -/

/-- A call leaves the templates. -/
structure KeepsTemplates (compose compose' : TbCompose) : Prop where
  config : compose'.config = compose.config
  revision : compose'.templatesRev = compose.templatesRev
  total : compose'.templateTotal = compose.templateTotal
  count : compose'.templateCount = compose.templateCount
  previews : compose'.previews = compose.previews

/-- A call leaves the draft. -/
structure KeepsDraft (compose compose' : TbCompose) : Prop where
  config : compose'.config = compose.config
  bytes : compose'.draftBytes = compose.draftBytes
  opened : compose'.opened = compose.opened
  draft : compose'.draft = compose.draft
  id : compose'.draftId = compose.draftId
  text : compose'.text = compose.text
  pending : compose'.draftPending = compose.draftPending

/-- A call leaves the templates, or there are none; what it asks for has the number that is given. -/
structure TemplatesTurn (compose compose' : TbCompose) (sequence : ℕ) : Prop where
  config : compose'.config = compose.config
  kept : compose'.templateCount = 0 ∨ KeepsTemplates compose compose'
  pending : compose'.templatesPending = sequence ∨ compose'.templatesPending = 0 ∨
    (compose'.templatesPending = compose.templatesPending ∧ KeepsTemplates compose compose')

/-- What a call does to the draft and to the request it is wanted from. -/
inductive DraftTurn (compose compose' : TbCompose) (sequence : ℕ) (drafting : Option ℕ) :
    Option ℕ → Prop
  | kept (h : KeepsDraft compose compose') : DraftTurn compose compose' sequence drafting drafting
  | asked (hopened : compose'.opened = true) (hsubmitted : sequence ≠ 0)
      (hother : compose'.templatesPending = compose.templatesPending)
      (hpending : compose'.draftPending = sequence) (hdraft : compose'.draft = .loading)
      (htext : compose'.text = none) : DraftTurn compose compose' sequence drafting (some sequence)
  | ended {drafting' : Option ℕ} (hpending : compose'.draftPending = 0)
      (hdraft : compose'.draft = .failed ∨ drafting' = none) :
      DraftTurn compose compose' sequence drafting drafting'

section Compose

variable (compose : TbCompose) (env : Composing.Env)

theorem KeepsTemplates.refl : KeepsTemplates compose compose := ⟨rfl, rfl, rfl, rfl, rfl⟩

theorem KeepsDraft.refl : KeepsDraft compose compose := ⟨rfl, rfl, rfl, rfl, rfl, rfl, rfl⟩

variable {compose} in
theorem KeepsTemplates.turn {compose' : TbCompose} (h : KeepsTemplates compose compose')
    (hpending : compose'.templatesPending = compose.templatesPending) {sequence : ℕ} :
    TemplatesTurn compose compose' sequence :=
  ⟨h.config, .inr h, .inr (.inr ⟨hpending, h⟩)⟩

theorem TemplatesTurn.refl (sequence : ℕ) : TemplatesTurn compose compose sequence :=
  (KeepsTemplates.refl compose).turn rfl

theorem loadTemplates_eq (hopened : compose.opened = true) : ∃ templates templatesError calls,
    compose.loadTemplates env = { compose with
      templatesPending := env.submitted.sequence, templates, templatesError, calls } := by
  rw [TbCompose.loadTemplates, if_neg (by rw [hopened]; exact not_not.2 rfl)]
  dsimp only
  split
  · exact ⟨_, _, _, rfl⟩
  · exact ⟨_, _, _, rfl⟩

theorem loadTemplates_turn : TemplatesTurn compose (compose.loadTemplates env)
    env.submitted.sequence ∧ KeepsDraft compose (compose.loadTemplates env) := by
  by_cases hopened : compose.opened = true
  · obtain ⟨_, _, _, hload⟩ := loadTemplates_eq compose env hopened
    rw [hload]
    exact ⟨⟨rfl, .inr ⟨rfl, rfl, rfl, rfl, rfl⟩, .inl rfl⟩, ⟨rfl, rfl, rfl, rfl, rfl, rfl, rfl⟩⟩
  · have hload : compose.loadTemplates env = compose := if_pos hopened
    rw [hload]
    exact ⟨.refl _ _, .refl _⟩

theorem discardCurrent_eq : ∃ calls,
    compose.discardCurrent = { compose with draftId := 0, calls } := by
  rw [TbCompose.discardCurrent]
  split
  · rename_i hnone
    exact ⟨compose.calls, by rw [← hnone]⟩
  · exact ⟨_, rfl⟩

theorem dropDraft_eq : ∃ calls, compose.dropDraft = { compose with
    draftPending := 0, draftId := 0, text := none, dictated := none, tooLong := false,
    draft := .none, draftError := tbErrorNone, calls } := by
  obtain ⟨calls, hdiscard⟩ := discardCurrent_eq compose.cancelDraft
  refine ⟨calls, ?_⟩
  rw [TbCompose.dropDraft, hdiscard]
  rfl

theorem close_eq (keepDraft : Bool) : ∃ tooLong draftError calls, compose.close keepDraft =
    { compose with
      templatesPending := 0, draftPending := 0, text := none, dictated := none, draftId := 0,
      draft := .none, previews := none, templateCount := 0, templateTotal := 0, templates := .none,
      templatesStale := false, opened := false, target := {}, tooLong, draftError, calls } := by
  rw [TbCompose.close]
  cases keepDraft with
  | true => exact ⟨_, _, _, rfl⟩
  | false =>
    obtain ⟨calls, hdrop⟩ := dropDraft_eq compose.cancelTemplates
    rw [if_neg Bool.false_ne_true, hdrop]
    exact ⟨_, _, _, rfl⟩

theorem requestDraft_eq : ∃ draftError calls, compose.requestDraft env = { compose with
    draftId := 0, text := none, tooLong := false, draftPending := env.submitted.sequence,
    draft := if env.submitted.sequence = 0 then .failed else .loading, draftError, calls } := by
  obtain ⟨calls, hdiscard⟩ := discardCurrent_eq compose.cancelDraft
  rw [TbCompose.requestDraft, hdiscard]
  by_cases hsubmitted : env.submitted.sequence = 0
  · rw [if_pos hsubmitted, if_pos hsubmitted]
    exact ⟨_, _, rfl⟩
  · rw [if_neg hsubmitted, if_neg hsubmitted]
    exact ⟨_, _, rfl⟩

theorem requestDraft_turn {base : TbCompose} (hkeeps : KeepsTemplates base compose)
    (hpending : compose.templatesPending = base.templatesPending) (hopened : compose.opened = true)
    (drafting : Option ℕ) :
    TemplatesTurn base (compose.requestDraft env) env.submitted.sequence ∧
      DraftTurn base (compose.requestDraft env) env.submitted.sequence drafting
        (if env.submitted.sequence = 0 then none else some env.submitted.sequence) := by
  obtain ⟨_, _, hrequest⟩ := requestDraft_eq compose env
  have hkept : KeepsTemplates base (compose.requestDraft env) := by
    rw [hrequest]
    exact ⟨hkeeps.config, hkeeps.revision, hkeeps.total, hkeeps.count, hkeeps.previews⟩
  rw [hrequest] at hkept ⊢
  refine ⟨hkept.turn hpending, ?_⟩
  by_cases hsubmitted : env.submitted.sequence = 0
  · exact .ended hsubmitted (.inr (if_pos hsubmitted))
  · rw [show (if env.submitted.sequence = 0 then none else some env.submitted.sequence) =
      some env.submitted.sequence from if_neg hsubmitted]
    exact .asked hopened hsubmitted hpending rfl (if_neg hsubmitted) rfl

variable {response : TbResponse}

theorem templatesDone_ended {sequence : ℕ}
    (hends : (response.outcome ≠ .response ∨ response.result ≠ tbResultOk) ∨
      response.payload = [] ∧ response.final = true) :
    TemplatesTurn compose (compose.templatesDone env sequence response) env.submitted.sequence ∧
      KeepsDraft compose (compose.templatesDone env sequence response) := by
  rw [TbCompose.templatesDone]
  by_cases hstale : sequence ≠ compose.templatesPending ∨ response.outcome = .cancelled
  · rw [if_pos hstale]
    exact ⟨.refl _ _, .refl _⟩
  · rw [if_neg hstale]
    by_cases hbad : response.outcome ≠ .response ∨ response.result ≠ tbResultOk
    · rw [if_pos hbad]
      exact ⟨⟨rfl, .inr ⟨rfl, rfl, rfl, rfl, rfl⟩, .inr (.inl rfl)⟩,
        ⟨rfl, rfl, rfl, rfl, rfl, rfl, rfl⟩⟩
    · obtain ⟨hpayload, hfinal⟩ := hends.resolve_left hbad
      rw [if_neg hbad, hpayload, hfinal]
      exact ⟨⟨rfl, .inr ⟨rfl, rfl, rfl, rfl, rfl⟩, .inr (.inl rfl)⟩,
        ⟨rfl, rfl, rfl, rfl, rfl, rfl, rfl⟩⟩

/-- The composition once a draft is refused. -/
def refused (response : TbResponse) : TbCompose :=
  { compose with
    draftPending := 0
    calls := compose.calls ++ abandoned compose.draftPending response
    draftError := tbErrorFromResponse response
    draft := .failed
    text := none }

theorem draftDone_refused (hkept : response.outcome ≠ .cancelled)
    (hbad : response.outcome ≠ .response ∨ response.result ≠ tbResultOk) :
    compose.draftDone env compose.draftPending response =
      if tbErrorFromResponse response = tbResultCursorLost then
        (refused compose response).loadTemplates env
      else refused compose response := by
  have hlive : ¬ (compose.draftPending ≠ compose.draftPending ∨ response.outcome = .cancelled) :=
    fun h => h.elim (fun h => h rfl) hkept
  rw [TbCompose.draftDone, if_neg hlive, if_pos hbad]
  rfl

theorem draftDone_failed
    (hbad : response.outcome ≠ .response ∨ response.result ≠ tbResultOk) (drafting : Option ℕ) :
    TemplatesTurn compose (compose.draftDone env compose.draftPending response)
        env.submitted.sequence ∧
      DraftTurn compose (compose.draftDone env compose.draftPending response) env.submitted.sequence
        drafting drafting := by
  by_cases hcancelled : response.outcome = .cancelled
  · have hsame : compose.draftDone env compose.draftPending response = compose := if_pos (.inr hcancelled)
    rw [hsame]
    exact ⟨.refl _ _, .kept (.refl _)⟩
  · rw [draftDone_refused compose env hcancelled hbad]
    have hkeeps : KeepsTemplates compose (refused compose response) :=
      ⟨rfl, rfl, rfl, rfl, rfl⟩
    split
    · obtain ⟨hturn, hsame⟩ := loadTemplates_turn (refused compose response) env
      refine ⟨⟨hturn.config.trans hkeeps.config, ?_, ?_⟩, .ended hsame.pending (.inl ?_)⟩
      · exact hturn.kept.imp_right fun h => ⟨h.config, h.revision, h.total, h.count, h.previews⟩
      · exact hturn.pending.imp_right (Or.imp_right fun h =>
          ⟨h.1, h.2.config, h.2.revision, h.2.total, h.2.count, h.2.previews⟩)
      · exact hsame.draft
    · exact ⟨hkeeps.turn rfl, .ended rfl (.inl rfl)⟩

variable {event : Composing.Event}

theorem user_turn (s : State) (hcall : ∀ callback sequence response,
    event ≠ .response callback sequence response) :
    TemplatesTurn s.compose (Composing.step s.compose (event, env)) env.submitted.sequence ∧
      DraftTurn s.compose (Composing.step s.compose (event, env)) env.submitted.sequence s.drafting
        (s.draftingAfter event env) := by
  cases event with
  | «open» target =>
    rw [State.draftingAfter]
    show TemplatesTurn _ (s.compose.open env target) _ ∧ DraftTurn _ (s.compose.open env target) _ _ _
    rw [TbCompose.open]
    by_cases hbad : target.account = [] ∨ target.chat = []
    · rw [if_pos hbad, if_pos hbad]
      exact ⟨.refl _ _, .kept (.refl _)⟩
    · rw [if_neg hbad, if_neg hbad]
      obtain ⟨_, _, _, hclose⟩ := close_eq s.compose false
      obtain ⟨_, _, _, hload⟩ :=
        loadTemplates_eq { s.compose.close false with target, opened := true } env rfl
      rw [hload, hclose]
      exact ⟨⟨rfl, .inl rfl, .inl rfl⟩, .ended rfl (.inr rfl)⟩
  | loadTemplates =>
    obtain ⟨hturn, hsame⟩ := loadTemplates_turn s.compose env
    exact ⟨hturn, .kept hsame⟩
  | pick index =>
    rw [State.draftingAfter]
    show TemplatesTurn _ (s.compose.pick env index) _ ∧ DraftTurn _ (s.compose.pick env index) _ _ _
    rw [TbCompose.pick]
    by_cases hbad : ¬ s.compose.opened ∨ s.compose.templateCount ≤ index
    · rw [if_pos hbad, if_pos hbad]
      exact ⟨.refl _ _, .kept (.refl _)⟩
    · rw [if_neg hbad, if_neg hbad]
      push Not at hbad
      exact requestDraft_turn s.compose env (.refl _) rfl hbad.1 s.drafting
  | dictated text =>
    rw [State.draftingAfter]
    show TemplatesTurn _ (s.compose.takeDictated env text) _ ∧
      DraftTurn _ (s.compose.takeDictated env text) _ _ _
    rw [TbCompose.takeDictated]
    by_cases hbad : ¬ s.compose.opened ∨ text = []
    · rw [if_pos hbad, if_pos hbad]
      exact ⟨.refl _ _, .kept (.refl _)⟩
    · rw [if_neg hbad, if_neg hbad]
      push Not at hbad
      by_cases hlong : tbComposeDraftLimit < text.length
      · rw [if_pos hlong]
        obtain ⟨_, hdiscard⟩ :=
          discardCurrent_eq ({ s.compose.cancelDraft with dictated := none } : TbCompose)
        rw [hdiscard]
        exact ⟨⟨rfl, .inr ⟨rfl, rfl, rfl, rfl, rfl⟩,
          .inr (.inr ⟨rfl, rfl, rfl, rfl, rfl, rfl⟩)⟩,
          .ended rfl (.inr (if_pos (.inl hlong)))⟩
      · rw [if_neg hlong]
        by_cases hmalloc : env.malloc = true
        · have hkept : ¬ (tbComposeDraftLimit < text.length ∨ env.malloc = false) := by
            rw [hmalloc]
            exact fun h => h.elim hlong Bool.noConfusion
          rw [if_neg (not_not.2 hmalloc), if_neg hkept]
          have hkeeps : KeepsTemplates s.compose
              ({ s.compose.cancelDraft with dictated := some text } : TbCompose) :=
            ⟨rfl, rfl, rfl, rfl, rfl⟩
          exact requestDraft_turn _ env hkeeps rfl hbad.1 s.drafting
        · rw [if_pos hmalloc]
          exact ⟨⟨rfl, .inr ⟨rfl, rfl, rfl, rfl, rfl⟩,
            .inr (.inr ⟨rfl, rfl, rfl, rfl, rfl, rfl⟩)⟩,
            .ended rfl (.inr (if_pos (.inr (Bool.eq_false_iff.2 hmalloc))))⟩
  | dropDraft =>
    obtain ⟨_, hdrop⟩ := dropDraft_eq s.compose
    show TemplatesTurn _ s.compose.dropDraft _ ∧ DraftTurn _ s.compose.dropDraft _ _ _
    rw [hdrop]
    exact ⟨⟨rfl, .inr ⟨rfl, rfl, rfl, rfl, rfl⟩,
      .inr (.inr ⟨rfl, rfl, rfl, rfl, rfl, rfl⟩)⟩, .ended rfl (.inr rfl)⟩
  | close keepDraft =>
    obtain ⟨_, _, _, hclose⟩ := close_eq s.compose keepDraft
    show TemplatesTurn _ (s.compose.close keepDraft) _ ∧
      DraftTurn _ (s.compose.close keepDraft) _ _ _
    rw [hclose]
    exact ⟨⟨rfl, .inl rfl, .inr (.inl rfl)⟩, .ended rfl (.inr rfl)⟩
  | response callback sequence response => exact absurd rfl (hcall callback sequence response)

theorem user_asked (hcall : ∀ callback sequence response,
    event ≠ .response callback sequence response) (hsubmitted : env.submitted.sequence ≠ 0)
    (hbefore : compose.draftPending ≠ env.submitted.sequence)
    (hafter : (Composing.step compose (event, env)).draftPending = env.submitted.sequence) :
    (∃ index, event = .pick index ∧ index < compose.templateCount) ∨
      ∃ text, event = .dictated text := by
  cases event with
  | «open» target =>
    change (compose.open env target).draftPending = _ at hafter
    rw [TbCompose.open] at hafter
    split at hafter
    · exact absurd hafter hbefore
    · obtain ⟨_, _, _, hclose⟩ := close_eq compose false
      obtain ⟨_, _, _, hload⟩ :=
        loadTemplates_eq { compose.close false with target, opened := true } env rfl
      rw [hload, hclose] at hafter
      exact absurd hafter.symm hsubmitted
  | loadTemplates => exact absurd ((loadTemplates_turn compose env).2.pending.symm.trans hafter) hbefore
  | pick index =>
    change (compose.pick env index).draftPending = _ at hafter
    rw [TbCompose.pick] at hafter
    split at hafter
    · exact absurd hafter hbefore
    · rename_i hgood
      push Not at hgood
      exact .inl ⟨index, rfl, hgood.2⟩
  | dictated text => exact .inr ⟨text, rfl⟩
  | dropDraft =>
    obtain ⟨_, hdrop⟩ := dropDraft_eq compose
    change compose.dropDraft.draftPending = _ at hafter
    rw [hdrop] at hafter
    exact absurd hafter.symm hsubmitted
  | close keepDraft =>
    obtain ⟨_, _, _, hclose⟩ := close_eq compose keepDraft
    change (compose.close keepDraft).draftPending = _ at hafter
    rw [hclose] at hafter
    exact absurd hafter.symm hsubmitted
  | response callback sequence response => exact absurd rfl (hcall callback sequence response)

end Compose

/-! ### What is on its way -/

variable (config : TbComposeConfig)

/-- The preview is that of the reply at the index, and the text is the reply. -/
def Faithful (normalize : JsString → JsString) (picked : Picked) (index : ℕ) (text : JsString) :
    Prop :=
  ∃ listing reply, picked.source = some listing ∧
    (listing.quickReplies normalize)[index]? = some reply ∧
    picked.preview = shownPreview normalize config (canonical normalize reply) ∧
    text = canonical normalize reply

/-- The preview is that of the reply at the index of a list of this revision. -/
def Offered (normalize : JsString → JsString) (revision index : ℕ) (picked : Picked) : Prop :=
  ∃ listing reply, picked.source = some listing ∧ Identified server quickReplies listing ∧
    revision = (listing.snapshot normalize).revision ∧
    (listing.quickReplies normalize)[index]? = some reply ∧
    picked.preview = shownPreview normalize config (canonical normalize reply)

/-- An answer is one to the request. -/
def Proper (normalize : JsString → JsString) : Option Request → Answer → Prop
  | some _, .refused _ => True
  | some .templates, .templates listing _ _ => Identified server quickReplies listing
  | some (.pick _ index picked), .draft id text _ => id < 2 ^ 32 ∧ Faithful config normalize picked index text
  | some (.dictated _), .draft id _ _ => id < 2 ^ 32
  | _, _ => False

/-- A chunk begins an answer, or it is the next of the same. -/
def Follows (chunk chunk' : Answer × ℕ) : Prop :=
  chunk'.2 = 0 ∨ chunk' = (chunk.1, chunk.2 + 1)

theorem chain_send {chunks : List (Answer × ℕ)} (h : chunks.IsChain Follows) (answer : Answer)
    (count : ℕ) : (chunks ++ (List.range count).map (answer, ·)).IsChain Follows := by
  refine isChain_append.2 ⟨h, ?_, fun chunk _ chunk' hfirst => ?_⟩
  · rw [isChain_map, isChain_range]
    exact fun index _ => .inr rfl
  · cases count with
    | zero => cases hfirst
    | succ count =>
      rw [range_succ_eq_map, map_cons, List.head?_cons, Option.mem_def,
        Option.some.injEq] at hfirst
      exact .inl (by rw [← hfirst])

/-- What is on its way answers what was asked, chunk after chunk. -/
structure Carried (normalize : JsString → JsString) (s : State) : Prop where
  zero : s.requests 0 = none
  unknown : ∀ n, s.requests n = none →
    s.channel n = [] ∧ s.expected n = none ∧ s.heard n = none
  loads : ∀ load ∈ s.loads, s.requests load.1 = some .templates
  chain : ∀ n, (s.channel n).IsChain Follows
  expects : ∀ n k, s.expected n = some (k + 1) →
    ∃ answer, s.heard n = some answer ∧ ((answer, k) :: s.channel n).IsChain Follows
  proper : ∀ n, ∀ chunk ∈ s.channel n,
    Proper server quickReplies config normalize (s.requests n) chunk.1
  heard : ∀ n answer, s.heard n = some answer →
    Proper server quickReplies config normalize (s.requests n) answer
  offered : ∀ n revision index picked, s.requests n = some (.pick revision index picked) →
    Offered server quickReplies config normalize revision index picked
  stored : ∀ listing ∈ s.stored, Identified server quickReplies listing

section Carried

variable {server quickReplies config} {s : State} {sequence : ℕ}

theorem Carried.send (h : Carried server quickReplies config normalize s) {answer : Answer}
    (hproper : Proper server quickReplies config normalize (s.requests sequence) answer) :
    Carried server quickReplies config normalize (s.send normalize sequence answer) := by
  have hknown : s.requests sequence ≠ none := by
    intro hnone
    rw [hnone] at hproper
    exact hproper.elim
  refine ⟨h.zero, fun n hn => ?_, h.loads, fun n => ?_, fun n k hk => ?_, fun n chunk hchunk => ?_,
    h.heard, h.offered, h.stored⟩
  · have hother : n ≠ sequence := fun hthis => hknown (hthis ▸ hn)
    obtain ⟨hchannel, hrest⟩ := h.unknown n hn
    exact ⟨(update_of_ne hother _ _).trans hchannel, hrest⟩
  · show (update s.channel sequence _ n).IsChain Follows
    by_cases hthis : n = sequence
    · rw [hthis, update_self]
      exact chain_send (h.chain sequence) answer _
    · rw [update_of_ne hthis]
      exact h.chain n
  · obtain ⟨answer', hheard, hchain⟩ := h.expects n k hk
    refine ⟨answer', hheard, ?_⟩
    show ((answer', k) :: update s.channel sequence _ n).IsChain Follows
    by_cases hthis : n = sequence
    · rw [hthis, update_self]
      rw [hthis] at hchain
      exact chain_send hchain answer _
    · rw [update_of_ne hthis]
      exact hchain
  · change chunk ∈ update s.channel sequence _ n at hchunk
    by_cases hthis : n = sequence
    · rw [hthis, update_self, mem_append] at hchunk
      rw [hthis]
      rcases hchunk with hchunk | hchunk
      · exact h.proper sequence chunk hchunk
      · obtain ⟨_, -, rfl⟩ := mem_map.1 hchunk
        exact hproper
    · rw [update_of_ne hthis] at hchunk
      exact h.proper n chunk hchunk

theorem Carried.taken (h : Carried server quickReplies config normalize s)
    {channel : ℕ → List (Answer × ℕ)} {expected : ℕ → Option ℕ} {heard : ℕ → Option Answer}
    {shown : Option Listing} (hchannel : ∀ n, channel n <:+ s.channel n)
    (hunknown : ∀ n, s.requests n = none → expected n = none ∧ heard n = none)
    (hexpects : ∀ n k, expected n = some (k + 1) →
      ∃ answer, heard n = some answer ∧ ((answer, k) :: channel n).IsChain Follows)
    (hheard : ∀ n answer, heard n = some answer →
      Proper server quickReplies config normalize (s.requests n) answer) :
    Carried server quickReplies config normalize { s with channel, expected, heard, shown } := by
  refine ⟨h.zero, fun n hn => ?_, h.loads, fun n => ?_, hexpects, fun n chunk hchunk => ?_, hheard,
    h.offered, h.stored⟩
  · have hnone := hchannel n
    rw [(h.unknown n hn).1] at hnone
    exact ⟨suffix_nil.1 hnone, hunknown n hn⟩
  · exact (h.chain n).suffix (hchannel n)
  · exact h.proper n chunk ((hchannel n).subset hchunk)

theorem identified_loaded {stored : Option Listing} {value : Settings} {result : Result}
    {loaded : Listing × Bool} (hstored : ∀ listing ∈ stored, Identified server quickReplies listing)
    (hidentified : ∀ replies, result = .ok replies → Identified server quickReplies ⟨value, replies⟩)
    (h : loadedListing stored value result = .ok loaded) : Identified server quickReplies loaded.1 := by
  cases result with
  | ok replies =>
    cases h
    exact hidentified replies rfl
  | failed | malformed =>
    rw [loadedListing] at h
    split at h
    · rename_i cached hcached
      cases h
      exact hstored cached (Option.filter_eq_some_iff.1 hcached).1
    · cases h

variable {env : Composing.Env}

section

variable (h : Carried server quickReplies config normalize s)
include h

theorem Carried.composed {compose : TbCompose} {request : Request} (hfresh : Fresh s env)
    (hoffered : env.submitted.sequence ≠ 0 → compose.draftPending = env.submitted.sequence →
      ∀ revision index picked, request = .pick revision index picked →
        Offered server quickReplies config normalize revision index picked) :
    Carried server quickReplies config normalize (s.composed compose env request) := by
  have hadded : ∀ request, env.submitted.sequence ≠ 0 →
      (∀ revision index picked, request = .pick revision index picked →
        Offered server quickReplies config normalize revision index picked) →
      Carried server quickReplies config normalize { s with
        compose
        requests := update s.requests env.submitted.sequence (some request)
        expected := update s.expected env.submitted.sequence (some 0) } := by
    intro request hsequence hoffered
    generalize hsubmitted : env.submitted.sequence = sequence at hsequence
    have hnone : s.requests sequence = none := by
      rw [← hsubmitted]
      exact hfresh.resolve_left (hsubmitted ▸ hsequence)
    obtain ⟨hchannel, -, hheard⟩ := h.unknown sequence hnone
    refine ⟨?_, fun n hn => ?_, fun load hload => ?_, h.chain, fun n k hk => ?_,
      fun n chunk hchunk => ?_, fun n answer hanswer => ?_, fun n revision index picked hn => ?_,
      h.stored⟩
    · exact (update_of_ne hsequence.symm _ _).trans h.zero
    · change update s.requests sequence _ n = none at hn
      by_cases hthis : n = sequence
      · rw [hthis, update_self] at hn
        cases hn
      · rw [update_of_ne hthis] at hn
        obtain ⟨hchannel, hexpected, hheard⟩ := h.unknown n hn
        exact ⟨hchannel, (update_of_ne hthis _ _).trans hexpected, hheard⟩
    · have hload' := h.loads load hload
      have hother : load.1 ≠ sequence := by
        intro hthis
        rw [hthis, hnone] at hload'
        cases hload'
      exact (update_of_ne hother _ _).trans hload'
    · change update s.expected sequence _ n = _ at hk
      by_cases hthis : n = sequence
      · rw [hthis, update_self] at hk
        cases hk
      · rw [update_of_ne hthis] at hk
        exact h.expects n k hk
    · have hother : n ≠ sequence := by
        intro hthis
        rw [hthis, hchannel] at hchunk
        cases hchunk
      show Proper _ _ _ _ (update s.requests sequence _ n) _
      rw [update_of_ne hother]
      exact h.proper n chunk hchunk
    · have hother : n ≠ sequence := by
        intro hthis
        rw [hthis, hheard] at hanswer
        cases hanswer
      show Proper _ _ _ _ (update s.requests sequence _ n) _
      rw [update_of_ne hother]
      exact h.heard n answer hanswer
    · change update s.requests sequence _ n = _ at hn
      by_cases hthis : n = sequence
      · rw [hthis, update_self, Option.some.injEq] at hn
        exact hoffered revision index picked hn
      · rw [update_of_ne hthis] at hn
        exact h.offered n revision index picked hn
  rw [State.composed]
  split
  · rename_i hload
    exact hadded .templates hload.1 nofun
  · split
    · rename_i hasked
      exact hadded request hasked.1 (hoffered hasked.1 hasked.2)
    · exact ⟨h.zero, h.unknown, h.loads, h.chain, h.expects, h.proper, h.heard, h.offered, h.stored⟩

theorem Carried.respond (hfresh : Fresh s env) (sequence : ℕ) (response : TbResponse) :
    Carried server quickReplies config normalize (s.respond sequence response env) := by
  rw [State.respond]
  split
  · exact h
  · exact h.composed hfresh fun _ _ => nofun
  · exact h.composed hfresh fun _ _ => nofun

theorem faithful_pickSource {revision index : ℕ} {picked : Picked}
    (hrequest : s.requests sequence = some (.pick revision index picked)) {raw : JsString}
    (hsource : pickSource (s.stored.map (Listing.snapshot normalize)) s.settings revision index =
      some raw) (hdrawn : Drawn server normalize s (s.requests sequence)) :
    canonical normalize raw = raw ∧ Faithful config normalize picked index raw := by
  rw [hrequest, Drawn, hsource] at hdrawn
  obtain ⟨hsame, hcanonical⟩ := hdrawn
  obtain ⟨listing, reply, hpicked, hidentified, hoffered, hreply, hpreview⟩ :=
    h.offered sequence revision index picked hrequest
  refine ⟨hcanonical, listing, reply, hpicked, hreply, hpreview, ?_⟩
  rw [hpicked] at hsame
  cases hstored : s.stored with
  | none =>
    rw [hstored] at hsame
    exact hsame.elim
  | some l =>
    rw [hstored] at hsame hsource
    -- the phone has compared the revision of its list with the one that was shown
    obtain ⟨hrevision, hitem⟩ : (l.snapshot normalize).revision % 2 ^ 32 = revision % 2 ^ 32 ∧
        (l.snapshot normalize).items[index]? = some raw := by
      cases hvalue : s.settings with
      | none =>
        rw [hvalue] at hsource
        cases hsource
      | some value =>
        rw [hvalue] at hsource
        change (if (l.snapshot normalize).fingerprint = fingerprint value ∧ _ then
          (l.snapshot normalize).items[index]?.filter _ else none) = some raw at hsource
        split at hsource
        · rename_i hmatches
          exact ⟨hmatches.2, (Option.filter_eq_some_iff.1 hsource).1⟩
        · cases hsource
    have hlists := quickReplies_eq server quickReplies normalize hsame (hoffered ▸ hrevision)
      (h.stored l hstored) hidentified
    rw [items_snapshot, List.getElem?_map, hlists, hreply] at hitem
    exact (Option.some.inj hitem).symm

theorem Carried.drafted {raw : JsString} (storage : Bool) (inboxSize : ℕ) (hrefused : ∀ code,
      Proper server quickReplies config normalize (s.requests sequence) (.refused code))
    (hproper : ∀ id < 2 ^ 32, Proper server quickReplies config normalize (s.requests sequence)
      (.draft id (canonical normalize raw) inboxSize)) :
    Carried server quickReplies config normalize
      (s.drafted normalize sequence raw storage inboxSize) := by
  rw [State.drafted]
  split
  · exact h.send (hrefused _)
  · generalize hid : (if storage ∧ 0 < s.counter ∧ s.counter < 0xFFFFFFF0 then s.counter else 0) + 1 =
      id
    have hsmall : id < 2 ^ 32 := by
      rw [← hid]
      split <;> omega
    have hcounted : Carried server quickReplies config normalize
        { s with counter := if storage then id else s.counter } :=
      ⟨h.zero, h.unknown, h.loads, h.chain, h.expects, h.proper, h.heard, h.offered, h.stored⟩
    exact hcounted.send (hproper id hsmall)

theorem Carried.arrive
    (decodeUtf8 : List UInt8 → JsString) (sequence : ℕ) (rejected : Option ℤ) (storage : Bool)
    (inboxSize : ℕ) (hdrawn : rejected = none → Drawn server normalize s (s.requests sequence)) :
    Carried server quickReplies config normalize
      (s.arrive normalize decodeUtf8 sequence rejected storage inboxSize) := by
  have hrefused : ∀ request, s.requests sequence = some request → ∀ code,
      Proper server quickReplies config normalize (s.requests sequence) (.refused code) := by
    intro request hrequest code
    rw [hrequest]
    cases request with
    | templates => trivial
    | pick _ _ _ => trivial
    | dictated _ => trivial
  unfold State.arrive
  cases hrequest : s.requests sequence with
  | none => exact h
  | some request =>
    cases request with
    | templates =>
      cases s.settings with
      | none => exact h.send (hrefused _ hrequest _)
      | some value =>
        refine ⟨h.zero, h.unknown, fun load hload => ?_, h.chain, h.expects, h.proper, h.heard,
          h.offered, h.stored⟩
        rcases mem_append.1 hload with hload | hload
        · exact h.loads load hload
        · rw [mem_singleton.1 hload]
          exact hrequest
    | dictated text =>
      cases rejected with
      | some code => exact h.send (hrefused _ hrequest _)
      | none =>
        refine h.drafted storage inboxSize (hrefused _ hrequest) fun id hid => ?_
        rw [hrequest]
        exact hid
    | pick revision index picked =>
      cases rejected with
      | some code => exact h.send (hrefused _ hrequest _)
      | none =>
        dsimp only
        cases hsource : pickSource (s.stored.map (Listing.snapshot normalize)) s.settings revision
            index with
        | none => exact h.send (hrefused _ hrequest _)
        | some raw =>
          obtain ⟨hcanonical, hfaithful⟩ := faithful_pickSource h hrequest hsource (hdrawn rfl)
          refine h.drafted storage inboxSize (hrefused _ hrequest) fun id hid => ?_
          rw [hrequest, hcanonical]
          exact ⟨hid, hfaithful⟩

theorem Carried.replied (load : ℕ) (result : Result) (written : Bool) (inboxSize : ℕ)
    (hidentified : ∀ replies, result = .ok replies → ∀ entry ∈ s.loads[load]?,
      Identified server quickReplies ⟨entry.2, replies⟩) :
    Carried server quickReplies config normalize
      (s.replied normalize load result written inboxSize) := by
  rw [State.replied]
  cases hload : s.loads[load]? with
  | none => exact h
  | some entry =>
    obtain ⟨sequence, value⟩ := entry
    have hrequest := h.loads (sequence, value) (mem_of_getElem? hload)
    have hstored : ∀ listing ∈ s.storedAfter value written result,
        Identified server quickReplies listing := by
      intro listing hlisting
      cases result with
      | failed _ | malformed => exact h.stored listing hlisting
      | ok replies =>
        rw [State.storedAfter] at hlisting
        split at hlisting
        · obtain rfl := Option.some.inj hlisting
          exact hidentified replies rfl _ hload
        · exact h.stored listing hlisting
    have hbase : Carried server quickReplies config normalize { s with
        loads := s.loads.eraseIdx load
        stored := s.storedAfter value written result } :=
      ⟨h.zero, h.unknown, fun load' hload' => h.loads load' (mem_of_mem_eraseIdx hload'), h.chain,
        h.expects, h.proper, h.heard, h.offered, hstored⟩
    refine hbase.send ?_
    rw [hrequest]
    cases hloaded : loadedListing s.stored value result with
    | error code => trivial
    | ok loaded =>
      exact identified_loaded h.stored (fun replies hok => hidentified replies hok _ hload) hloaded

end

end Carried

/-! ### What the watch shows -/

/-- What has been read of the templates is the begin of an answer. -/
def Hearing (normalize : JsString → JsString) (s : State) (count : ℕ) : Prop :=
  ∃ listing stale inboxSize groups,
    s.heard s.compose.templatesPending = some (.templates listing stale inboxSize) ∧
    s.shown = some listing ∧
    Laid normalize (records (listing.snapshot normalize) stale (previewLimit s.compose.config))
      ((Answer.templates listing stale inboxSize).messages normalize s.compose.config) groups ∧
    Heard normalize s.compose (listing.snapshot normalize) (groups.take count).flatten.length

/-- The previews are of the list that is shown, and the answers to the request go on with it. -/
structure Presents (normalize : JsString → JsString) (s : State) : Prop where
  config : s.compose.config = config
  shown : s.compose.templateCount = 0 ∨ ∃ listing count, s.shown = some listing ∧
    Identified server quickReplies listing ∧
    Reads normalize s.compose (listing.snapshot normalize) count
  request : s.compose.templatesPending ≠ 0 → s.requests s.compose.templatesPending = some .templates
  hearing : s.compose.templatesPending ≠ 0 → ∀ count,
    s.expected s.compose.templatesPending = some count → count = 0 ∨ Hearing normalize s count

/-- The items of the answer for a draft: what there is to know of it, and the parts of its text. -/
def draftItems (normalize : JsString → JsString) (config : TbComposeConfig) (id : ℕ) (text : JsString)
    (inboxSize : ℕ) : List TextItem :=
  .draft {
    id := ofLength id
    bytes := ofLength (utf8Bytes text)
    units := ofLength text.length
    flags := ofLength (if maxTextUnits < text.length then 1 else 0) } ::
  (Phone.Text.splitUtf8 (Texts.shownDraft normalize text config.textLimit).bytes
    (Texts.budget inboxSize - 16)).map .text

/-- What the composition holds once it has read some items of an answer, if there was memory for it. -/
def Holds (compose : TbCompose) (items : List TextItem) : Prop :=
  compose.text = none ∨
    (compose.text = (items.foldl heardItem { config := compose.config }).text ∧
      compose.draftBytes = (items.foldl heardItem { config := compose.config }).draftBytes)

/-- So many chunks of a draft have been read. -/
def Drafted (normalize : JsString → JsString) (s : State) (sequence count : ℕ) : Prop :=
  ∃ id text inboxSize groups, s.heard sequence = some (.draft id text inboxSize) ∧
    Laid normalize (draftItems normalize s.compose.config id text inboxSize)
      ((Answer.draft id text inboxSize).messages normalize s.compose.config) groups ∧
    s.compose.draftId = id ∧ Holds s.compose (groups.take count).flatten

/-- A draft has been read to its end. -/
def Made (normalize : JsString → JsString) (s : State) (sequence : ℕ) : Prop :=
  ∃ id text inboxSize, s.heard sequence = some (.draft id text inboxSize) ∧
    s.compose.draftId = id ∧ s.compose.text ≠ none ∧
    Holds s.compose (draftItems normalize s.compose.config id text inboxSize)

/-- The draft of the watch is the one of the request that it is noted to be of. -/
structure Drafts (normalize : JsString → JsString) (s : State) : Prop where
  opened : s.compose.draftPending ≠ 0 → s.compose.opened = true ∧ s.compose.draft = .loading
  request : s.compose.draftPending ≠ 0 → s.drafting = some s.compose.draftPending ∧
    ∃ request, s.requests s.compose.draftPending = some request ∧ request ≠ .templates
  hearing : s.compose.draftPending ≠ 0 → ∀ count,
    s.expected s.compose.draftPending = some count → (count = 0 ∧ s.compose.text = none) ∨
      (count ≠ 0 ∧ Drafted normalize s s.compose.draftPending count)
  ready : s.compose.draft = .ready → ∀ sequence, s.drafting = some sequence →
    s.requests sequence ≠ none ∧ s.expected sequence = none ∧ Made normalize s sequence
  settled : ∀ sequence, s.drafting = some sequence → s.compose.draftPending = sequence ∨
    s.compose.draft = .ready ∨ s.compose.draft = .failed

section Kept

variable {s s' : State} {n : ℕ} (hkeeps : KeepsDraft s.compose s'.compose)
  (hheard : s'.heard n = s.heard n)
include hkeeps

theorem KeepsDraft.holds {items : List TextItem} (h : Holds s.compose items) :
    Holds s'.compose items := by
  rw [Holds, hkeeps.text, hkeeps.bytes, hkeeps.config]
  exact h

include hheard

theorem Drafted.kept {count : ℕ} (h : Drafted normalize s n count) :
    Drafted normalize s' n count := by
  obtain ⟨id, text, inboxSize, groups, hthis, hlaid, hid, hholds⟩ := h
  refine ⟨id, text, inboxSize, groups, hheard.trans hthis, ?_, hkeeps.id.trans hid,
    hkeeps.holds hholds⟩
  rw [hkeeps.config]
  exact hlaid

theorem Made.kept (h : Made normalize s n) : Made normalize s' n := by
  obtain ⟨id, text, inboxSize, hthis, hid, hsome, hholds⟩ := h
  refine ⟨id, text, inboxSize, hheard.trans hthis, hkeeps.id.trans hid, hkeeps.text ▸ hsome, ?_⟩
  rw [hkeeps.config]
  exact hkeeps.holds hholds

end Kept

variable {snapshot : Snapshot}

theorem KeepsTemplates.reads {compose compose' : TbCompose} (h : KeepsTemplates compose compose')
    {count : ℕ} (hreads : Reads normalize compose snapshot count) :
    Reads normalize compose' snapshot count := by
  refine ⟨h.revision.trans hreads.revision, h.total.trans hreads.total, ?_⟩
  rw [h.previews, h.count, h.config]
  exact hreads.previews

theorem KeepsTemplates.heard {compose compose' : TbCompose} (h : KeepsTemplates compose compose')
    {count : ℕ} (hheard : Heard normalize compose snapshot count) :
    Heard normalize compose' snapshot count := by
  cases count with
  | zero => trivial
  | succ count => exact h.reads hheard

section Watch

variable {server quickReplies config} {s : State}

variable (compose : TbCompose) (env : Composing.Env) (request : Request)

theorem composed_of_ne {sequence : ℕ} (hother : sequence ≠ env.submitted.sequence) :
    (s.composed compose env request).requests sequence = s.requests sequence ∧
      (s.composed compose env request).expected sequence = s.expected sequence := by
  rw [State.composed]
  split
  · exact ⟨update_of_ne hother _ _, update_of_ne hother _ _⟩
  · split
    · exact ⟨update_of_ne hother _ _, update_of_ne hother _ _⟩
    · exact ⟨rfl, rfl⟩

theorem composed_rest :
    (s.composed compose env request).compose = compose ∧
      (s.composed compose env request).heard = s.heard ∧
      (s.composed compose env request).shown = s.shown ∧
      (s.composed compose env request).drafting = s.drafting := by
  rw [State.composed]
  split
  · exact ⟨rfl, rfl, rfl, rfl⟩
  · split
    · exact ⟨rfl, rfl, rfl, rfl⟩
    · exact ⟨rfl, rfl, rfl, rfl⟩

theorem composed_idle {compose : TbCompose} {env : Composing.Env}
    (hidle : env.submitted.sequence ≠ 0 → compose.templatesPending ≠ env.submitted.sequence ∧
      compose.draftPending ≠ env.submitted.sequence) :
    s.composed compose env request = { s with compose } := by
  rw [State.composed, if_neg fun h => (hidle h.1).1 h.2, if_neg fun h => (hidle h.1).2 h.2]

theorem Presents.pending_ne (h : Presents server quickReplies config normalize s)
    {env : Composing.Env} (hfresh : Fresh s env) (hsubmitted : env.submitted.sequence ≠ 0) :
    s.compose.templatesPending ≠ env.submitted.sequence := by
  intro hthis
  have hrequest := h.request (hthis ▸ hsubmitted)
  rw [hthis, hfresh.resolve_left hsubmitted] at hrequest
  cases hrequest

theorem Drafts.pending_ne (h : Drafts normalize s) {env : Composing.Env} (hfresh : Fresh s env)
    (hsubmitted : env.submitted.sequence ≠ 0) :
    s.compose.draftPending ≠ env.submitted.sequence := by
  intro hthis
  obtain ⟨-, request, hrequest, -⟩ := h.request (hthis ▸ hsubmitted)
  rw [hthis, hfresh.resolve_left hsubmitted] at hrequest
  cases hrequest

theorem Presents.turn (h : Presents server quickReplies config normalize s) {compose : TbCompose}
    {env : Composing.Env} (request : Request) (hfresh : Fresh s env)
    (hturn : TemplatesTurn s.compose compose env.submitted.sequence) :
    Presents server quickReplies config normalize (s.composed compose env request) := by
  obtain ⟨hcompose, hheard, hshown, -⟩ := @composed_rest s compose env request
  have hkept : compose.templatesPending ≠ 0 →
      (env.submitted.sequence ≠ 0 ∧ compose.templatesPending = env.submitted.sequence) ∨
      (compose.templatesPending = s.compose.templatesPending ∧ KeepsTemplates s.compose compose ∧
        s.compose.templatesPending ≠ env.submitted.sequence) := by
    intro hpending
    rcases hturn.pending with hthis | hnone | ⟨hsame, hkeeps⟩
    · exact .inl ⟨hthis ▸ hpending, hthis⟩
    · exact absurd hnone hpending
    · refine .inr ⟨hsame, hkeeps, ?_⟩
      by_cases hsubmitted : env.submitted.sequence = 0
      · rw [hsubmitted, ← hsame]
        exact hpending
      · exact h.pending_ne hfresh hsubmitted
  have hasked : env.submitted.sequence ≠ 0 ∧ compose.templatesPending = env.submitted.sequence →
      (s.composed compose env request).requests compose.templatesPending = some .templates ∧
        (s.composed compose env request).expected compose.templatesPending = some 0 := by
    intro hthis
    rw [State.composed, if_pos hthis, hthis.2]
    exact ⟨update_self .., update_self ..⟩
  refine ⟨?_, ?_, ?_, ?_⟩
  · rw [hcompose]
    exact hturn.config.trans h.config
  · rw [hcompose, hshown]
    rcases hturn.kept with hnone | hkeeps
    · exact .inl hnone
    · refine h.shown.imp (fun hnone => hkeeps.count.trans hnone) ?_
      rintro ⟨listing, count, hlisting, hidentified, hreads⟩
      exact ⟨listing, count, hlisting, hidentified, hkeeps.reads hreads⟩
  · rw [hcompose]
    intro hpending
    rcases hkept hpending with hthis | ⟨hsame, -, hother⟩
    · exact (hasked hthis).1
    · rw [hsame, (composed_of_ne compose env request hother).1]
      exact h.request (hsame ▸ hpending)
  · rw [hcompose]
    intro hpending count hcount
    rcases hkept hpending with hthis | ⟨hsame, hkeeps, hother⟩
    · rw [(hasked hthis).2, Option.some.injEq] at hcount
      exact .inl hcount.symm
    · rw [hsame, (composed_of_ne compose env request hother).2] at hcount
      refine (h.hearing (hsame ▸ hpending) count hcount).imp_right ?_
      rintro ⟨listing, stale, inboxSize, groups, hthis, hlisting, hlaid, hread⟩
      refine ⟨listing, stale, inboxSize, groups, ?_, hshown.trans hlisting, ?_, ?_⟩
      · rw [hcompose, hheard, hsame]
        exact hthis
      · rw [hcompose, hkeeps.config]
        exact hlaid
      · rw [hcompose]
        exact hkeeps.heard hread

theorem Drafts.turn (h : Drafts normalize s) (hshows : Presents server quickReplies config normalize s)
    (hzero : s.requests 0 = none) {compose : TbCompose} {env : Composing.Env}
    {request : Request} {drafting : Option ℕ}
    (hfresh : Fresh s env)
    (hturn : DraftTurn s.compose compose env.submitted.sequence s.drafting drafting)
    (hrequest : env.submitted.sequence ≠ 0 → compose.draftPending = env.submitted.sequence →
      request ≠ .templates) :
    Drafts normalize { s.composed compose env request with drafting } := by
  obtain ⟨hcompose, hheard, -, -⟩ := @composed_rest s compose env request
  cases hturn with
  | kept hkeeps =>
    have hother : s.compose.draftPending ≠ 0 → s.compose.draftPending ≠ env.submitted.sequence := by
      intro hpending
      by_cases hsubmitted : env.submitted.sequence = 0
      · rw [hsubmitted]
        exact hpending
      · exact h.pending_ne hfresh hsubmitted
    refine ⟨?_, ?_, ?_, ?_, ?_⟩
    · rw [hcompose, hkeeps.pending, hkeeps.opened, hkeeps.draft]
      exact h.opened
    · rw [hcompose, hkeeps.pending]
      intro hpending
      rw [(composed_of_ne compose env request (hother hpending)).1]
      exact h.request hpending
    · rw [hcompose, hkeeps.pending, hkeeps.text]
      intro hpending count hcount
      rw [(composed_of_ne compose env request (hother hpending)).2] at hcount
      exact (h.hearing hpending count hcount).imp_right
        (And.imp_right (Drafted.kept (hcompose.symm ▸ hkeeps) (congrFun hheard _)))
    · rw [hcompose, hkeeps.draft]
      intro hready sequence hsequence
      obtain ⟨hknown, hnone, hmade⟩ := h.ready hready sequence hsequence
      have hother' : sequence ≠ env.submitted.sequence := by
        rintro rfl
        rcases hfresh with hnumber | hunknown
        · rw [hnumber] at hknown
          exact hknown hzero
        · exact hknown hunknown
      obtain ⟨hsame, hsame'⟩ := composed_of_ne compose env request hother'
      refine ⟨?_, hsame'.trans hnone, hmade.kept (hcompose.symm ▸ hkeeps) (congrFun hheard _)⟩
      rw [hsame]
      exact hknown
    · show ∀ _, s.drafting = some _ → (s.composed compose env request).compose.draftPending = _ ∨
        (s.composed compose env request).compose.draft = _ ∨
        (s.composed compose env request).compose.draft = _
      rw [hcompose, hkeeps.pending, hkeeps.draft]
      exact h.settled
  | asked hopened hsubmitted hother hpending hdraft htext =>
    have hadded : s.composed compose env request = { s with
        compose
        requests := update s.requests env.submitted.sequence (some request)
        expected := update s.expected env.submitted.sequence (some 0) } := by
      rw [State.composed, if_neg fun hthis => hshows.pending_ne hfresh hthis.1 (hother ▸ hthis.2),
        if_pos ⟨hsubmitted, hpending⟩]
    rw [hadded]
    refine ⟨fun _ => ⟨hopened, hdraft⟩, fun _ => ⟨?_, request, ?_, hrequest hsubmitted hpending⟩,
      fun _ count hcount => .inl ⟨?_, htext⟩, fun hready => ?_, fun sequence hsequence => .inl ?_⟩
    · rw [← hpending]
    · rw [← hpending]
      exact update_self ..
    · change update s.expected _ _ compose.draftPending = some count at hcount
      rw [hpending, update_self, Option.some.injEq] at hcount
      exact hcount.symm
    · rw [hdraft] at hready
      cases hready
    · exact hpending.trans (Option.some.inj hsequence)
  | ended hpending hdraft =>
    refine ⟨?_, ?_, ?_, ?_, ?_⟩
    · rw [hcompose]
      exact fun hthis => absurd hpending hthis
    · rw [hcompose]
      exact fun hthis => absurd hpending hthis
    · rw [hcompose]
      exact fun hthis => absurd hpending hthis
    · rw [hcompose]
      intro hready sequence hsequence
      rcases hdraft with hfailed | hnone
      · rw [hfailed] at hready
        cases hready
      · rw [hnone] at hsequence
        cases hsequence
    · show ∀ _, drafting = some _ → _ ∨ (s.composed compose env request).compose.draft = _ ∨
        (s.composed compose env request).compose.draft = _
      rw [hcompose]
      intro sequence hsequence
      rcases hdraft with hfailed | hnone
      · exact .inr (.inr hfailed)
      · rw [hnone] at hsequence
        cases hsequence

variable {channel : ℕ → List (Answer × ℕ)} {expected : ℕ → Option ℕ} {heard : ℕ → Option Answer}

theorem Presents.kept (h : Presents server quickReplies config normalize s) {compose : TbCompose}
    {n : ℕ} (hkeeps : KeepsTemplates s.compose compose)
    (hpending : compose.templatesPending = s.compose.templatesPending)
    (hexpected : ∀ m, m ≠ n → expected m = s.expected m) (hheard : ∀ m, m ≠ n → heard m = s.heard m)
    (hend : expected n = none ∨ s.compose.templatesPending ≠ n) :
    Presents server quickReplies config normalize
      { s with compose, channel, expected, heard } := by
  refine ⟨hkeeps.config.trans h.config, ?_, ?_, ?_⟩
  · refine h.shown.imp (fun hnone => hkeeps.count.trans hnone) ?_
    rintro ⟨listing, count, hlisting, hidentified, hreads⟩
    exact ⟨listing, count, hlisting, hidentified, hkeeps.reads hreads⟩
  · rw [hpending]
    exact h.request
  · show compose.templatesPending ≠ 0 → ∀ count, expected compose.templatesPending = _ → _
    rw [hpending]
    intro hsome count hcount
    have hother : s.compose.templatesPending ≠ n := by
      rintro rfl
      rcases hend with hnone | hnot
      · rw [hnone] at hcount
        cases hcount
      · exact hnot rfl
    rw [hexpected _ hother] at hcount
    refine (h.hearing hsome count hcount).imp_right ?_
    rintro ⟨listing, stale, inboxSize, groups, hthis, hlisting, hlaid, hread⟩
    refine ⟨listing, stale, inboxSize, groups, ?_, hlisting, ?_, hkeeps.heard hread⟩
    · show heard compose.templatesPending = _
      rw [hpending, hheard _ hother]
      exact hthis
    · show Laid normalize (records _ stale (previewLimit compose.config))
        (Answer.messages normalize compose.config _) groups
      rw [hkeeps.config]
      exact hlaid

theorem Drafts.kept (h : Drafts normalize s) {compose : TbCompose} {shown : Option Listing} {n : ℕ}
    (hkeeps : KeepsDraft s.compose compose) (hexpected : ∀ m, m ≠ n → expected m = s.expected m)
    (hheard : ∀ m, m ≠ n → heard m = s.heard m)
    (hend : expected n = none ∨ s.compose.draftPending ≠ n)
    (hlive : s.expected n ≠ none ∨ (expected n = none ∧ heard n = s.heard n)) :
    Drafts normalize { s with compose, channel, expected, heard, shown } := by
  refine ⟨?_, ?_, ?_, ?_, ?_⟩
  · rw [hkeeps.pending, hkeeps.opened, hkeeps.draft]
    exact h.opened
  · show compose.draftPending ≠ 0 → s.drafting = some compose.draftPending ∧ ∃ request,
      s.requests compose.draftPending = some request ∧ _
    rw [hkeeps.pending]
    exact h.request
  · show compose.draftPending ≠ 0 → ∀ count, expected compose.draftPending = some count →
      (count = 0 ∧ compose.text = none) ∨ _
    rw [hkeeps.pending, hkeeps.text]
    intro hsome count hcount
    have hother : s.compose.draftPending ≠ n := by
      rintro rfl
      rcases hend with hnone | hnot
      · rw [hnone] at hcount
        cases hcount
      · exact hnot rfl
    rw [hexpected _ hother] at hcount
    exact (h.hearing hsome count hcount).imp_right
      (And.imp_right (Drafted.kept hkeeps (hheard _ hother)))
  · show compose.draft = .ready → ∀ sequence, s.drafting = some sequence →
      s.requests sequence ≠ none ∧ expected sequence = none ∧ _
    rw [hkeeps.draft]
    intro hready sequence hsequence
    obtain ⟨hknown, hnone, hmade⟩ := h.ready hready sequence hsequence
    by_cases hother : sequence = n
    · rw [hother] at hnone hmade ⊢
      rcases hlive with hsome | ⟨hnone', hsame⟩
      · exact absurd hnone hsome
      · exact ⟨hother ▸ hknown, hnone', hmade.kept hkeeps hsame⟩
    · exact ⟨hknown, (hexpected _ hother).trans hnone, hmade.kept hkeeps (hheard _ hother)⟩
  · show ∀ sequence, s.drafting = some sequence → compose.draftPending = sequence ∨
      compose.draft = _ ∨ compose.draft = _
    rw [hkeeps.pending, hkeeps.draft]
    exact h.settled

theorem composed_drafting :
    { s.composed compose env request with drafting := s.drafting } =
      s.composed compose env request := by
  obtain ⟨-, -, -, hdrafting⟩ := @composed_rest s compose env request
  rw [← hdrafting]

variable {response : TbResponse}

theorem draftDone_empty
    (hpayload : response.payload = []) (hfinal : response.final = true) (htext : compose.text = none)
    (drafting : Option ℕ) :
    TemplatesTurn compose (compose.draftDone env compose.draftPending response)
        env.submitted.sequence ∧
      DraftTurn compose (compose.draftDone env compose.draftPending response) env.submitted.sequence
        drafting drafting := by
  by_cases hbad : response.outcome ≠ .response ∨ response.result ≠ tbResultOk
  · exact draftDone_failed compose env hbad drafting
  · rw [TbCompose.draftDone]
    by_cases hstale : compose.draftPending ≠ compose.draftPending ∨ response.outcome = .cancelled
    · rw [if_pos hstale]
      exact ⟨.refl _ _, .kept (.refl _)⟩
    · have hdone : compose.draftDone env compose.draftPending response = { compose with
          draftPending := 0
          dictated := none
          draft := .failed
          draftError := tbErrorOutOfMemory } := by
        rw [TbCompose.draftDone, if_neg hstale, if_neg hbad, hpayload, hfinal]
        exact (if_pos rfl).trans (if_pos (.inr htext))
      rw [TbCompose.draftDone] at hdone
      rw [hdone]
      exact ⟨⟨rfl, .inr ⟨rfl, rfl, rfl, rfl, rfl⟩,
        .inr (.inr ⟨rfl, rfl, rfl, rfl, rfl, rfl⟩)⟩, .ended rfl (.inl rfl)⟩

theorem draftLoop_frame (fuel index : ℕ)
    (cursor : TbCursor) : ∃ draftId draftBytes draftUnits tooLong text,
      compose.draftLoop env fuel index cursor = { compose with
        draftId, draftBytes, draftUnits, tooLong, text } := by
  induction fuel generalizing compose index cursor with
  | zero => exact ⟨_, _, _, _, _, rfl⟩
  | succ fuel ih =>
    rw [TbCompose.draftLoop]
    cases tbCodecNext cursor with
    | none => exact ⟨_, _, _, _, _, rfl⟩
    | some record =>
      obtain ⟨type, body, cursor⟩ := record
      dsimp only
      have hframe : ∃ draftId draftBytes draftUnits tooLong text,
          compose.draftRecord env index type body = { compose with
            draftId, draftBytes, draftUnits, tooLong, text } := by
        rw [TbCompose.draftRecord]
        split
        · cases tbCodecDraft body with
          | none | some record => exact ⟨_, _, _, _, _, rfl⟩
        · split
          · cases compose.text with
            | none => exact ⟨_, _, _, _, _, rfl⟩
            | some text =>
              cases tbCodecText body with
              | none | some part => exact ⟨_, _, _, _, _, rfl⟩
          · exact ⟨_, _, _, _, _, rfl⟩
      obtain ⟨_, _, _, _, _, hframe⟩ := hframe
      obtain ⟨id, bytes, units, long, text, hrest⟩ :=
        ih (compose.draftRecord env index type body) (index + 1) cursor
      exact ⟨id, bytes, units, long, text, by rw [hrest, hframe]⟩

theorem draftDone_pending (sequence : ℕ)
    (response : TbResponse) : (compose.draftDone env sequence response).draftPending = 0 ∨
      (compose.draftDone env sequence response).draftPending = compose.draftPending := by
  by_cases hstale : sequence ≠ compose.draftPending ∨ response.outcome = .cancelled
  · have hsame : compose.draftDone env sequence response = compose := if_pos hstale
    rw [hsame]
    exact .inr rfl
  · push Not at hstale
    obtain ⟨rfl, hkept⟩ := hstale
    by_cases hbad : response.outcome ≠ .response ∨ response.result ≠ tbResultOk
    · rw [draftDone_refused compose env hkept hbad]
      split
      · exact .inl (loadTemplates_turn (refused compose response) env).2.pending
      · exact .inl rfl
    · obtain ⟨_, _, _, _, _, hframe⟩ :=
        draftLoop_frame compose env response.payload.length 0 response.payload
      have hlive : ¬ (compose.draftPending ≠ compose.draftPending ∨ response.outcome = .cancelled) :=
        fun h => h.elim (fun h => h rfl) hkept
      rw [TbCompose.draftDone, if_neg hlive, if_neg hbad, hframe]
      dsimp only
      split
      · split
        · exact .inl rfl
        · exact .inl rfl
      · exact .inr rfl

theorem respond_without (h : Presents server quickReplies config normalize s) (hdrafts : Drafts normalize s)
    (hzero : s.requests 0 = none) {env : Composing.Env} (hfresh : Fresh s env) {sequence : ℕ}
    (hwithout : response.outcome ≠ .response ∨ response.result ≠ tbResultOk ∨
      (response.payload = [] ∧ response.final = true ∧
        (sequence = s.compose.draftPending → s.compose.text = none))) :
    Presents server quickReplies config normalize (s.respond sequence response env) ∧
      Drafts normalize (s.respond sequence response env) := by
  rw [State.respond]
  split
  · exact ⟨h, hdrafts⟩
  · have hturn : TemplatesTurn s.compose (s.compose.templatesDone env sequence response)
          env.submitted.sequence ∧
        KeepsDraft s.compose (s.compose.templatesDone env sequence response) := by
      rcases hwithout with hbad | hbad | ⟨hpayload, hfinal, -⟩
      · exact templatesDone_ended s.compose env (.inl (.inl hbad))
      · exact templatesDone_ended s.compose env (.inl (.inr hbad))
      · exact templatesDone_ended s.compose env (.inr ⟨hpayload, hfinal⟩)
    refine ⟨h.turn .templates hfresh hturn.1, ?_⟩
    rw [← composed_drafting]
    refine hdrafts.turn h hzero hfresh (.kept hturn.2) fun hsubmitted hthis => ?_
    rw [hturn.2.pending] at hthis
    exact absurd hthis (hdrafts.pending_ne hfresh hsubmitted)
  · have hturn : TemplatesTurn s.compose (s.compose.draftDone env sequence response)
          env.submitted.sequence ∧
        DraftTurn s.compose (s.compose.draftDone env sequence response) env.submitted.sequence
          s.drafting s.drafting := by
      by_cases hthis : sequence = s.compose.draftPending
      · subst hthis
        rcases hwithout with hbad | hbad | ⟨hpayload, hfinal, htext⟩
        · exact draftDone_failed s.compose env (.inl hbad) s.drafting
        · exact draftDone_failed s.compose env (.inr hbad) s.drafting
        · exact draftDone_empty s.compose env hpayload hfinal (htext rfl) s.drafting
      · have hsame : s.compose.draftDone env sequence response = s.compose := if_pos (.inl hthis)
        rw [hsame]
        exact ⟨.refl _ _, .kept (.refl _)⟩
    refine ⟨h.turn .templates hfresh hturn.1, ?_⟩
    rw [← composed_drafting]
    refine hdrafts.turn h hzero hfresh hturn.2 fun hsubmitted hthis => ?_
    rcases draftDone_pending s.compose env sequence response with hnone | hsame
    · exact absurd (hthis.symm.trans hnone) hsubmitted
    · exact absurd (hsame.symm.trans hthis) (hdrafts.pending_ne hfresh hsubmitted)

end Watch

end Picking
