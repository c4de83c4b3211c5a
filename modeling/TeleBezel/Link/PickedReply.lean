import TeleBezel.Link.PickedInvariant

/-!
# The reply that is drafted

A draft of a template is made of the list that the phone has stored when the request arrives. It is the
one whose preview was picked as long as that list is of the same server and the same revision as the
one that the watch shows: the places of the two are then the same, whatever chunks of the answers have
arrived. The phone refuses another revision, but it compares the server with its own settings only.
-/

open List

namespace Picking

open Phone Phone.Codec Phone.Templates Phone.Text Watch Watch.TextReader Watch.Composing Wire Texts
  Transition Function

variable {ι : Type} {server : Settings → ι} {quickReplies : ι → ℤ → List JsString}
  {normalize : JsString → JsString} {config : TbComposeConfig} {s : State}

/-! ### A chunk of an answer -/

variable {answer : Answer}

theorem Carried.continues (h : Carried server quickReplies config normalize s) {n index : ℕ}
    {rest : List (Answer × ℕ)} (hchannel : s.channel n = (answer, index + 1) :: rest)
    (hexpected : s.expected n = some (index + 1)) : s.heard n = some answer := by
  obtain ⟨answer', hheard, hchain⟩ := h.expects n index hexpected
  rw [hchannel, isChain_cons_cons] at hchain
  rcases hchain.1 with hzero | hnext
  · cases hzero
  · obtain ⟨hsame, -⟩ := Prod.mk.inj hnext
    rw [hheard, hsame]

theorem templatesDone_ok (compose : TbCompose) (env : Composing.Env) {response : TbResponse}
    (houtcome : response.outcome = .response) (hresult : response.result = tbResultOk) :
    compose.templatesDone env compose.templatesPending response =
      if response.final = true then
        { compose.templatesLoop env response.payload.length 0 response.payload with
          templatesPending := 0, templatesError := tbErrorNone, templates := .ready }
      else compose.templatesLoop env response.payload.length 0 response.payload := by
  have hlive : ¬ (compose.templatesPending ≠ compose.templatesPending ∨
      response.outcome = .cancelled) := by
    rw [houtcome]
    exact fun h => h.elim (fun h => h rfl) nofun
  have hgood : ¬ (response.outcome ≠ .response ∨ response.result ≠ tbResultOk) :=
    fun h => h.elim (fun h => h houtcome) fun h => h hresult
  rw [TbCompose.templatesDone, if_neg hlive, if_neg hgood]

theorem presents_heard (hcarried : Carried server quickReplies config normalize s)
    (h : Presents server quickReplies config normalize s) {n index : ℕ} {listing : Listing}
    {stale : Bool} {inboxSize : ℕ} {rest : List (Answer × ℕ)} {response : TbResponse}
    (hpending : s.compose.templatesPending = n) (hsome : n ≠ 0)
    (hchannel : s.channel n = (.templates listing stale inboxSize, index) :: rest)
    (hexpected : s.expected n = some index)
    (hresponse : ((Answer.templates listing stale inboxSize).messages normalize
      s.compose.config)[index]? = some response) (env : Composing.Env)
    (channel : ℕ → List (Answer × ℕ)) :
    Presents server quickReplies config normalize { s with
        compose := s.compose.templatesDone env n response
        channel
        expected := update s.expected n (if response.final then none else some (index + 1))
        heard := update s.heard n (some (.templates listing stale inboxSize))
        shown := s.shownAfter n (.templates listing stale inboxSize) index } ∧
      KeepsDraft s.compose (s.compose.templatesDone env n response) ∧
      ((s.compose.templatesDone env n response).templatesPending = 0 ∨
        (s.compose.templatesDone env n response).templatesPending = n) := by
  have hrequest : s.requests n = some .templates := hpending ▸ h.request (hpending ▸ hsome)
  have hidentified : Identified server quickReplies listing := by
    have hproper := hcarried.proper n (.templates listing stale inboxSize, index)
      (hchannel ▸ mem_cons_self)
    rw [hrequest] at hproper
    exact hproper
  -- what has been heard before this chunk
  have hbefore : ∃ groups,
      Laid normalize (records (listing.snapshot normalize) stale (previewLimit s.compose.config))
        ((Answer.templates listing stale inboxSize).messages normalize s.compose.config) groups ∧
      Heard normalize s.compose (listing.snapshot normalize) (groups.take index).flatten.length ∧
      (index ≠ 0 → s.shown = some listing) := by
    cases index with
    | zero =>
      obtain ⟨groups, hlaid⟩ := @laid_respond normalize
        (records (listing.snapshot normalize) stale (previewLimit s.compose.config))
        (cons_ne_nil _ _) (Texts.budget inboxSize)
      exact ⟨groups, hlaid, trivial, fun hne => absurd rfl hne⟩
    | succ index =>
      have hheard := hcarried.continues hchannel hexpected
      rcases h.hearing (hpending ▸ hsome) _ (hpending.symm ▸ hexpected) with hzero | hhearing
      · cases hzero
      · obtain ⟨listing', stale', inboxSize', groups, hthis, hlisting, hlaid, hread⟩ := hhearing
        rw [hpending, hheard, Option.some.injEq] at hthis
        obtain ⟨rfl, rfl, rfl⟩ := Answer.templates.inj hthis
        exact ⟨groups, hlaid, hread, fun _ => hlisting⟩
  obtain ⟨groups, hlaid, hread, hshown⟩ := hbefore
  obtain ⟨group, hgroup, rfl⟩ := hlaid.chunk hresponse
  obtain ⟨others, hdrop, hlength⟩ := hlaid.drop hgroup
  have hafter : s.shownAfter n (.templates listing stale inboxSize) index = some listing := by
    rw [State.shownAfter]
    by_cases hfirst : index = 0
    · rw [if_pos ⟨hrequest, hpending.symm, hfirst⟩]
    · rw [if_neg fun hthis => hfirst hthis.2.2]
      exact hshown hfirst
  have hkept : Kept (listing.snapshot normalize) := kept_snapshotOf normalize _ _
  -- the loop reads the records of the chunk
  have hloop := @heard_records normalize s.compose (listing.snapshot normalize) env hkept stale
    s.compose.config rfl group others (groups.take index).flatten.length hdrop hread
    (group.flatMap (Item.bytes (Phone.Text.encode normalize))).length (length_items_le group) 0
  rw [← hlength] at hloop
  have hpos := hlaid.pos (List.getElem?_eq_some_iff.1 hgroup).1
  obtain ⟨templatesRev, templatesStale, templateTotal, templateCount, previews, hframe⟩ :=
    @templatesLoop_frame env s.compose
      (group.flatMap (Item.bytes (Phone.Text.encode normalize))).length 0
      (group.flatMap (Item.bytes (Phone.Text.encode normalize)))
  rw [hframe] at hloop
  have hdone := @templatesDone_ok s.compose env (reply groups.length
    (group.flatMap (Item.bytes (Phone.Text.encode normalize)), index)) rfl rfl
  rw [hpending] at hdone
  have hform : ∃ templatesPending templatesError templates,
      s.compose.templatesDone env n (reply groups.length
        (group.flatMap (Item.bytes (Phone.Text.encode normalize)), index)) = { s.compose with
          templatesRev, templatesStale, templateTotal, templateCount, previews, templatesPending,
          templatesError, templates } ∧
      ((index + 1 = groups.length ∧ templatesPending = 0) ∨
        (index + 1 ≠ groups.length ∧ templatesPending = n)) := by
    by_cases hlast : index + 1 = groups.length
    · refine ⟨0, tbErrorNone, .ready, ?_, .inl ⟨hlast, rfl⟩⟩
      refine hdone.trans ((if_pos (decide_eq_true hlast)).trans ?_)
      exact congrArg (fun compose : TbCompose => { compose with
        templatesPending := 0, templatesError := tbErrorNone, templates := .ready }) hframe
    · refine ⟨s.compose.templatesPending, s.compose.templatesError, s.compose.templates, ?_,
        .inr ⟨hlast, hpending⟩⟩
      exact hdone.trans ((if_neg fun hthis => hlast (of_decide_eq_true hthis)).trans hframe)
  obtain ⟨templatesPending, templatesError, templates, hthis, hends⟩ := hform
  have hreads : Heard normalize ({ s.compose with
      templatesRev, templatesStale, templateTotal, templateCount, previews, templatesPending,
      templatesError, templates } : TbCompose) (listing.snapshot normalize)
      (groups.take (index + 1)).flatten.length := by
    have hkeeps : KeepsTemplates ({ s.compose with
        templatesRev, templatesStale, templateTotal, templateCount, previews } : TbCompose)
        { s.compose with
          templatesRev, templatesStale, templateTotal, templateCount, previews, templatesPending,
          templatesError, templates } := ⟨rfl, rfl, rfl, rfl, rfl⟩
    exact hkeeps.heard hloop
  rw [hthis, hafter]
  refine ⟨⟨h.config, .inr ⟨listing, (groups.take (index + 1)).flatten.length - 1, rfl, hidentified, ?_⟩,
    fun hne => ?_, fun hne count hcount => .inr ?_⟩,
    ⟨rfl, rfl, rfl, rfl, rfl, rfl, rfl⟩, ?_⟩
  · obtain ⟨count, hcount⟩ := Nat.exists_eq_succ_of_ne_zero (Nat.pos_iff_ne_zero.1 hpos)
    rw [hcount] at hreads ⊢
    exact hreads
  · rcases hends with ⟨-, hnone⟩ | ⟨-, hsame⟩
    · exact absurd hnone hne
    · rw [hsame]
      exact hrequest
  · rcases hends with ⟨-, hnone⟩ | ⟨hmore, hsame⟩
    · exact absurd hnone hne
    · change update s.expected n _ templatesPending = some count at hcount
      rw [hsame, update_self] at hcount
      rw [show (reply groups.length (group.flatMap (Item.bytes (Phone.Text.encode normalize)),
        index)).final = false from decide_eq_false hmore] at hcount
      obtain rfl : index + 1 = count := Option.some.inj hcount
      refine ⟨listing, stale, inboxSize, groups, ?_, rfl, hlaid, hreads⟩
      show update s.heard n _ templatesPending = _
      rw [hsame, update_self]
  · exact hends.imp And.right And.right

theorem draftItems_answered {id : ℕ} (hid : id < 2 ^ 32) (text : JsString) (inboxSize : ℕ) :
    ∀ item ∈ draftItems normalize config id text inboxSize, Answered item ∧
      ∀ value, item = .draft value → value.id.clamped 0xFFFFFFFF = id := by
  intro item hitem
  rcases mem_cons.1 hitem with rfl | hitem
  · refine ⟨trivial, fun value hvalue => ?_⟩
    obtain rfl := Item.draft.inj hvalue
    rw [clamped_ofLength_min]
    omega
  · obtain ⟨part, hpart, rfl⟩ := mem_map.1 hitem
    have hlength := length_le_of_mem_splitUtf8 hpart
    have hshort : (shownDraft normalize text config.textLimit).bytes.length ≤ 8192 :=
      (length_encode_le normalize text _ false).trans (by omega)
    exact ⟨show part.length < 65534 by omega, nofun⟩

theorem config_foldl (compose : TbCompose) (items : List TextItem) :
    (items.foldl heardItem compose).config = compose.config := by
  induction items generalizing compose with
  | nil => rfl
  | cons item items ih =>
    refine (ih (heardItem compose item)).trans ?_
    cases item with
    | text part =>
      rw [heardItem]
      cases compose.text with
      | none => rfl
      | some _ => rfl
    | _ => rfl

/-- A record adds its item to what is held. -/
theorem read_record {compose : TbCompose} (env : Composing.Env) {item : TextItem}
    (hitem : Answered item) {items : List TextItem} (hholds : Holds compose items)
    (rest : List UInt8) (index : ℕ) :
    ∃ type body, tbCodecNext (item.bytes (Phone.Text.encode normalize) ++ rest) =
        some (type, body, rest) ∧
      (compose.draftRecord env index type body).draftId =
        (match item with
        | .draft value => value.id.clamped 0xFFFFFFFF
        | _ => compose.draftId) ∧
      Holds (compose.draftRecord env index type body) (items ++ [item]) := by
  cases item with
  | draft value =>
    obtain ⟨body, hnext, hrecord⟩ := @next_draft normalize value rest
    refine ⟨_, body, hnext, ?_⟩
    rw [TbCompose.draftRecord, if_pos rfl, hrecord]
    refine ⟨rfl, ?_⟩
    rw [Holds, foldl_append]
    cases hcalloc : env.calloc index with
    | true => exact .inr ⟨rfl, rfl⟩
    | false => exact .inl rfl
  | text part =>
    obtain ⟨body, hnext, hpart⟩ := @next_text normalize part hitem rest
    refine ⟨_, body, hnext, ?_⟩
    rw [TbCompose.draftRecord, if_neg (by decide), if_pos rfl, hpart]
    cases htext : compose.text with
    | none => exact ⟨rfl, .inl htext⟩
    | some text =>
      obtain ⟨hthis, hbytes⟩ := hholds.resolve_left (by rw [htext]; exact Option.some_ne_none text)
      have hconfig := config_foldl { config := compose.config } items
      refine ⟨rfl, .inr ?_⟩
      rw [foldl_append, foldl_cons, foldl_nil]
      rw [htext] at hthis
      simp only [heardItem, ← hthis, TbCompose.fitting, TbCompose.textBytes, ← hbytes, hconfig,
        and_self]
  | _ => cases hitem

theorem read_loop {compose : TbCompose} (env : Composing.Env) {id : ℕ} {items : List TextItem}
    (hitems : ∀ item ∈ items, Answered item ∧
      ∀ value, item = .draft value → value.id.clamped 0xFFFFFFFF = id)
    (hheader : compose.draftId = id ∨ ∃ value, items.head? = some (.draft value)) {fuel : ℕ}
    (hfuel : items.length ≤ fuel) (index : ℕ) {read : List TextItem} (hholds : Holds compose read) :
    let after := compose.draftLoop env fuel index
      (items.flatMap (Item.bytes (Phone.Text.encode normalize)))
    after.draftId = id ∧ Holds after (read ++ items) := by
  induction items generalizing compose fuel index read with
  | nil =>
    have hid := hheader.resolve_right nofun
    rw [append_nil]
    cases fuel with
    | zero => exact ⟨hid, hholds⟩
    | succ _ => exact ⟨hid, hholds⟩
  | cons item items ih =>
    cases fuel with
    | zero => cases hfuel
    | succ fuel =>
      obtain ⟨hanswered, hvalue⟩ := hitems item mem_cons_self
      obtain ⟨type, body, hnext, hrecord, hholds'⟩ := @read_record normalize compose env item hanswered
        read hholds (items.flatMap (Item.bytes (Phone.Text.encode normalize))) index
      have hthis : (compose.draftRecord env index type body).draftId = id := by
        rw [hrecord]
        cases item with
        | draft value => exact hvalue value rfl
        | text part => exact hheader.resolve_right nofun
        | _ => cases hanswered
      rw [flatMap_cons, TbCompose.draftLoop, hnext, append_cons]
      exact ih (fun item hitem => hitems item (mem_cons_of_mem _ hitem)) (.inl hthis)
        (Nat.le_of_succ_le_succ hfuel) _ hholds'

theorem draftDone_ok (compose : TbCompose) (env : Composing.Env) {response : TbResponse}
    (houtcome : response.outcome = .response) (hresult : response.result = tbResultOk) :
    ∃ dictated draft draftError draftPending,
      compose.draftDone env compose.draftPending response =
        { compose.draftLoop env response.payload.length 0 response.payload with
          dictated, draft, draftError, draftPending } ∧
      ((response.final = true ∧ draftPending = 0 ∧ (draft = .failed ∨ (draft = .ready ∧
          (compose.draftLoop env response.payload.length 0 response.payload).text ≠ none))) ∨
        (response.final = false ∧ draftPending = compose.draftPending ∧ draft = compose.draft)) := by
  obtain ⟨id, bytes, units, long, text, hframe⟩ :=
    draftLoop_frame compose env response.payload.length 0 response.payload
  have hlive : ¬ (compose.draftPending ≠ compose.draftPending ∨ response.outcome = .cancelled) := by
    rw [houtcome]
    exact fun h => h.elim (fun h => h rfl) nofun
  have hgood : ¬ (response.outcome ≠ .response ∨ response.result ≠ tbResultOk) :=
    fun h => h.elim (fun h => h houtcome) fun h => h hresult
  rw [TbCompose.draftDone, if_neg hlive, if_neg hgood, hframe]
  cases response.final with
  | true =>
    rw [if_pos rfl]
    by_cases hnone : id = 0 ∨ text = none
    · rw [if_pos hnone]
      exact ⟨_, _, _, _, rfl, .inl ⟨rfl, rfl, .inl rfl⟩⟩
    · rw [if_neg hnone]
      exact ⟨_, _, _, _, rfl, .inl ⟨rfl, rfl, .inr ⟨rfl, fun h => hnone (.inr h)⟩⟩⟩
  | false =>
    rw [if_neg Bool.false_ne_true]
    exact ⟨_, _, _, _, rfl, .inr ⟨rfl, rfl, rfl⟩⟩

theorem drafts_heard (hcarried : Carried server quickReplies config normalize s)
    (h : Drafts normalize s) {n index id inboxSize : ℕ} {text : JsString} {rest : List (Answer × ℕ)}
    {response : TbResponse} (hpending : s.compose.draftPending = n) (hsome : n ≠ 0)
    (hchannel : s.channel n = (.draft id text inboxSize, index) :: rest)
    (hexpected : s.expected n = some index)
    (hresponse : ((Answer.draft id text inboxSize).messages normalize s.compose.config)[index]? =
      some response) (env : Composing.Env) (channel : ℕ → List (Answer × ℕ)) (shown : Option Listing) :
    Drafts normalize { s with
        compose := s.compose.draftDone env n response
        channel
        expected := update s.expected n (if response.final then none else some (index + 1))
        heard := update s.heard n (some (.draft id text inboxSize))
        shown } ∧
      KeepsTemplates s.compose (s.compose.draftDone env n response) ∧
      (s.compose.draftDone env n response).templatesPending = s.compose.templatesPending ∧
      ((s.compose.draftDone env n response).draftPending = 0 ∨
        (s.compose.draftDone env n response).draftPending = n) := by
  obtain ⟨hopened, hloading⟩ := h.opened (hpending ▸ hsome)
  obtain ⟨hdrafting, request, hrequest, hkind⟩ := h.request (hpending ▸ hsome)
  rw [hpending] at hdrafting hrequest
  have hid : id < 2 ^ 32 := by
    have hproper := hcarried.proper n (.draft id text inboxSize, index) (hchannel ▸ mem_cons_self)
    rw [hrequest] at hproper
    cases request with
    | templates => exact absurd rfl hkind
    | pick _ _ _ => exact hproper.1
    | dictated _ => exact hproper
  -- what has been heard before this chunk
  have hbefore : ∃ groups, Laid normalize (draftItems normalize s.compose.config id text inboxSize)
        ((Answer.draft id text inboxSize).messages normalize s.compose.config) groups ∧
      Holds s.compose (groups.take index).flatten ∧ (index ≠ 0 → s.compose.draftId = id) := by
    cases index with
    | zero =>
      obtain ⟨groups, hlaid⟩ := @laid_respond normalize
        (draftItems normalize s.compose.config id text inboxSize) (cons_ne_nil _ _)
        (Texts.budget inboxSize)
      rcases h.hearing (hpending ▸ hsome) _ (hpending.symm ▸ hexpected) with ⟨-, htext⟩ | ⟨hne, -⟩
      · exact ⟨groups, hlaid, .inl htext, fun hne => absurd rfl hne⟩
      · exact absurd rfl hne
    | succ index =>
      rcases h.hearing (hpending ▸ hsome) _ (hpending.symm ▸ hexpected) with ⟨hzero, -⟩ | ⟨-, hread⟩
      · cases hzero
      · obtain ⟨id', text', inboxSize', groups, hthis, hlaid, hread, hholds⟩ := hread
        rw [hpending, hcarried.continues hchannel hexpected, Option.some.injEq] at hthis
        obtain ⟨rfl, rfl, rfl⟩ := Answer.draft.inj hthis
        exact ⟨groups, hlaid, hholds, fun _ => hread⟩
  obtain ⟨groups, hlaid, hholds, hread⟩ := hbefore
  obtain ⟨group, hgroup, rfl⟩ := Laid.chunk hlaid hresponse
  obtain ⟨others, hdrop, -⟩ := hlaid.drop hgroup
  -- the number has been read before, or it is in the header, which is first in the first chunk
  have hheader : s.compose.draftId = id ∨ ∃ value, group.head? = some (.draft value) := by
    cases index with
    | zero =>
      refine .inr ?_
      have hfull := hlaid.full group (mem_of_getElem? hgroup)
      cases group with
      | nil => exact absurd rfl hfull
      | cons item group =>
        rw [take_zero, flatten_nil, length_nil, drop_zero] at hdrop
        obtain ⟨hfirst, -⟩ := List.cons.inj hdrop
        exact ⟨_, congrArg some hfirst.symm⟩
    | succ index => exact .inl (hread (Nat.succ_ne_zero index))
  have hitems : ∀ item ∈ group, Answered item ∧
      ∀ value, item = .draft value → value.id.clamped 0xFFFFFFFF = id := by
    intro item hitem
    refine @draftItems_answered normalize s.compose.config id hid text inboxSize item ?_
    rw [← hlaid.flatten]
    exact mem_flatten_of_mem (mem_of_getElem? hgroup) hitem
  obtain ⟨hloop, hholds⟩ := @read_loop normalize s.compose env id group hitems hheader
    (group.flatMap (Item.bytes (Phone.Text.encode normalize))).length (length_items_le group) 0 _ hholds
  have htake : (groups.take index).flatten ++ group = (groups.take (index + 1)).flatten := by
    rw [take_add_one, hgroup, flatten_append]
    exact congrArg (_ ++ ·) (append_nil group).symm
  obtain ⟨dictated, draft, draftError, draftPending, hthis, hends⟩ := @draftDone_ok s.compose env
    (reply groups.length (group.flatMap (Item.bytes (Phone.Text.encode normalize)), index)) rfl rfl
  rw [hpending] at hthis hends
  obtain ⟨draftId, draftBytes, draftUnits, tooLong, text', hframe⟩ := draftLoop_frame s.compose env
    (group.flatMap (Item.bytes (Phone.Text.encode normalize))).length 0
    (group.flatMap (Item.bytes (Phone.Text.encode normalize)))
  change s.compose.draftDone env n _ = { s.compose.draftLoop env
    (group.flatMap (Item.bytes (Phone.Text.encode normalize))).length 0
    (group.flatMap (Item.bytes (Phone.Text.encode normalize))) with
      dictated, draft, draftError, draftPending } at hthis
  change (_ = true ∧ _ ∧ (_ ∨ (_ ∧ (s.compose.draftLoop env
    (group.flatMap (Item.bytes (Phone.Text.encode normalize))).length 0
    (group.flatMap (Item.bytes (Phone.Text.encode normalize)))).text ≠ none))) ∨ _ at hends
  rw [hframe] at hthis hloop hholds hends
  obtain rfl : draftId = id := hloop
  rw [hthis]
  rw [htake] at hholds
  refine ⟨⟨fun hne => ?_, fun hne => ?_, fun hne count hcount => .inr ?_, fun hready m hm => ?_,
    fun m hm => ?_⟩, ⟨rfl, rfl, rfl, rfl, rfl⟩, rfl,
    hends.imp (fun hlast => hlast.2.1) fun hmore => hmore.2.1⟩
  · rcases hends with ⟨-, hnone, -⟩ | ⟨-, -, hsame⟩
    · exact absurd hnone hne
    · exact ⟨hopened, hsame.trans hloading⟩
  · rcases hends with ⟨-, hnone, -⟩ | ⟨-, hsame, -⟩
    · exact absurd hnone hne
    · refine ⟨hsame ▸ hdrafting, request, ?_, hkind⟩
      rw [hsame]
      exact hrequest
  · rcases hends with ⟨-, hnone, -⟩ | ⟨hmore, hsame, -⟩
    · exact absurd hnone hne
    · change update s.expected n _ draftPending = some count at hcount
      rw [hsame, update_self, hmore] at hcount
      obtain rfl : index + 1 = count := Option.some.inj hcount
      refine ⟨Nat.succ_ne_zero index, draftId, text, inboxSize, groups, ?_, hlaid, rfl, hholds⟩
      show update s.heard n _ draftPending = _
      rw [hsame, update_self]
  · obtain rfl : n = m := Option.some.inj (hdrafting.symm.trans hm)
    rcases hends with ⟨hlast, -, hdone⟩ | ⟨-, -, hsame⟩
    · refine ⟨?_, ?_, draftId, text, inboxSize, update_self .., rfl, ?_, ?_⟩
      · rw [hrequest]
        exact Option.some_ne_none request
      · show update s.expected n _ n = none
        rw [update_self, hlast]
        rfl
      · rcases hdone with hfailed | ⟨-, htext⟩
        · cases hready.symm.trans hfailed
        · exact htext
      · rw [of_decide_eq_true hlast, take_length, hlaid.flatten] at hholds
        exact hholds
    · have hstill := hloading.symm.trans (hsame.symm.trans hready)
      cases hstill
  · obtain rfl : n = m := Option.some.inj (hdrafting.symm.trans hm)
    rcases hends with ⟨-, -, hdone⟩ | ⟨-, hsame, -⟩
    · exact .inr (hdone.symm.imp And.left id)
    · exact .inl hsame

/-! ### Every step -/

/-- The three together. -/
structure Sound (server : Settings → ι) (quickReplies : ι → ℤ → List JsString)
    (config : TbComposeConfig) (normalize : JsString → JsString) (s : State) : Prop where
  carried : Carried server quickReplies config normalize s
  presents : Presents server quickReplies config normalize s
  drafts : Drafts normalize s

theorem sound_init : Sound server quickReplies config normalize { compose := { config } } where
  carried := ⟨rfl, fun _ _ => ⟨rfl, rfl, rfl⟩, nofun, fun _ => isChain_nil, nofun, nofun, nofun, nofun,
    nofun⟩
  presents := ⟨rfl, .inl rfl, fun h => absurd rfl h, fun h => absurd rfl h⟩
  drafts := ⟨fun h => absurd rfl h, fun h => absurd rfl h, fun h => absurd rfl h, nofun, nofun⟩

section

variable (h : Sound server quickReplies config normalize s)
include h

theorem sound_user (event : Composing.Event) {env : Composing.Env} (hfresh : Fresh s env) :
    Sound server quickReplies config normalize (s.user event env) := by
  by_cases hcall : ∀ callback sequence response, event ≠ .response callback sequence response
  · have huser : s.user event env =
        { s.composed (Composing.step s.compose (event, env)) env (s.requestOf event) with
          drafting := s.draftingAfter event env } := by
      cases event with
      | response callback sequence response => exact absurd rfl (hcall callback sequence response)
      | _ => rfl
    obtain ⟨hturn, hdraft⟩ := user_turn env s hcall
    have hasked := fun hsubmitted => user_asked s.compose env hcall hsubmitted
      (h.drafts.pending_ne hfresh hsubmitted)
    have hcarried : Carried server quickReplies config normalize
        (s.composed (Composing.step s.compose (event, env)) env (s.requestOf event)) := by
      refine h.carried.composed hfresh fun hsubmitted hpending revision index picked hrequest => ?_
      rcases hasked hsubmitted hpending with ⟨index', rfl, hindex⟩ | ⟨text, rfl⟩
      · obtain ⟨rfl, rfl, rfl⟩ := Request.pick.inj hrequest
        -- the index is one of a preview, so that it is one of a template
        rcases h.presents.shown with hnone | ⟨listing, count, hlisting, hidentified, hreads⟩
        · omega
        · rcases hreads.previews with ⟨-, hnone⟩ | ⟨previews, hpreviews, hlength, htaken, hshown⟩
          · omega
          · have hitems := items_snapshot normalize listing
            have hlt : index' < (listing.quickReplies normalize).length := by
              rw [hitems, length_map] at hlength
              omega
            obtain ⟨reply, hreply⟩ : ∃ reply, (listing.quickReplies normalize)[index']? = some reply :=
              ⟨_, List.getElem?_eq_getElem hlt⟩
            refine ⟨listing, reply, hlisting, hidentified, hreads.revision, hreply, ?_⟩
            have hpreview := hshown index' (canonical normalize reply) hindex (by
              rw [hitems, List.getElem?_map, hreply]
              rfl)
            rw [tbComposeTemplate, hpreviews]
            dsimp only
            rw [if_neg (Nat.not_le.2 hindex), getD_eq_getElem?_getD, hpreview, Option.getD_some,
              h.presents.config]
      · cases hrequest
    have hpresents := h.presents.turn (s.requestOf event) hfresh hturn
    rw [huser]
    refine ⟨?_, ?_, h.drafts.turn h.presents h.carried.zero hfresh hdraft fun hsubmitted hpending => ?_⟩
    · exact ⟨hcarried.zero, hcarried.unknown, hcarried.loads, hcarried.chain, hcarried.expects,
        hcarried.proper, hcarried.heard, hcarried.offered, hcarried.stored⟩
    · exact ⟨hpresents.config, hpresents.shown, hpresents.request, hpresents.hearing⟩
    · rcases hasked hsubmitted hpending with ⟨index', rfl, -⟩ | ⟨text, rfl⟩
      · exact nofun
      · exact nofun
  · push Not at hcall
    obtain ⟨callback, sequence, response, rfl⟩ := hcall
    exact h

theorem sound_completed (n : ℕ) {chunks : List (Answer × ℕ)} (hchunks : chunks <:+ s.channel n) :
    Sound server quickReplies config normalize { s with
      channel := update s.channel n chunks
      expected := update s.expected n none } := by
  have hchannel : ∀ m, m ≠ n → update s.channel n chunks m = s.channel m :=
    fun m hm => update_of_ne hm _ _
  have hother : ∀ m, m ≠ n → update s.expected n none m = s.expected m :=
    fun m hm => update_of_ne hm _ _
  have hnone : update s.expected n none n = none := update_self ..
  refine ⟨h.carried.taken (fun m => ?_) (fun m hm => ⟨?_, (h.carried.unknown m hm).2.2⟩)
    (fun m k hk => ?_) h.carried.heard, ?_, ?_⟩
  · by_cases hthis : m = n
    · rw [hthis, update_self]
      exact hchunks
    · rw [hchannel m hthis]
  · by_cases hthis : m = n
    · rw [hthis, hnone]
    · rw [hother m hthis]
      exact (h.carried.unknown m hm).2.1
  · by_cases hthis : m = n
    · rw [hthis, hnone] at hk
      cases hk
    · rw [hother m hthis] at hk
      obtain ⟨answer, hheard, hchain⟩ := h.carried.expects m k hk
      exact ⟨answer, hheard, by rwa [hchannel m hthis]⟩
  · exact h.presents.kept (.refl _) rfl hother (fun _ _ => rfl) (.inl hnone)
  · exact h.drafts.kept (.refl _) hother (fun _ _ => rfl) (.inl hnone) (.inr ⟨hnone, rfl⟩)

theorem sound_without {env : Composing.Env}
    (hfresh : Fresh s env) {sequence : ℕ} {response : TbResponse}
    (hwithout : response.outcome ≠ .response ∨ response.result ≠ tbResultOk ∨
      (response.payload = [] ∧ response.final = true ∧
        (sequence = s.compose.draftPending → s.compose.text = none))) :
    Sound server quickReplies config normalize (s.respond sequence response env) := by
  obtain ⟨hpresents, hdrafts⟩ :=
    respond_without h.presents h.drafts h.carried.zero hfresh hwithout
  exact ⟨h.carried.respond hfresh sequence response, hpresents, hdrafts⟩

end

theorem respond_templates {n : ℕ} (hrequest : s.requests n = some .templates) (response : TbResponse)
    (env : Composing.Env) : s.respond n response env =
      s.composed (s.compose.templatesDone env n response) env .templates := by
  rw [State.respond, hrequest]

theorem respond_draft {n : ℕ} {request : Request} (hrequest : s.requests n = some request)
    (hkind : request ≠ .templates) (response : TbResponse) (env : Composing.Env) :
    s.respond n response env = s.composed (s.compose.draftDone env n response) env .templates := by
  cases request with
  | templates => exact absurd rfl hkind
  | pick _ _ _ | dictated _ => rw [State.respond, hrequest]

theorem Carried.chunk (h : Carried server quickReplies config normalize s) {n index : ℕ}
    {rest : List (Answer × ℕ)} (hchannel : s.channel n = (answer, index) :: rest)
    (final : Bool) (shown : Option Listing) :
    Carried server quickReplies config normalize { s with
      channel := update s.channel n rest
      expected := update s.expected n (if final then none else some (index + 1))
      heard := update s.heard n (some answer)
      shown } := by
  have hproper := h.proper n (answer, index) (hchannel ▸ mem_cons_self)
  refine h.taken (fun m => ?_) (fun m hm => ?_) (fun m k hk => ?_) fun m answer' hanswer => ?_
  · by_cases hthis : m = n
    · rw [hthis, update_self, hchannel]
      exact suffix_cons _ _
    · rw [update_of_ne hthis]
  · have hthis : m ≠ n := by
      rintro rfl
      rw [(h.unknown m hm).1] at hchannel
      cases hchannel
    rw [update_of_ne hthis, update_of_ne hthis]
    exact (h.unknown m hm).2
  · by_cases hthis : m = n
    · rw [hthis, update_self] at hk
      rw [hthis, update_self, update_self]
      refine ⟨answer, rfl, ?_⟩
      cases final with
      | true => cases hk
      | false =>
        obtain rfl : index = k := Nat.succ.inj (Option.some.inj hk)
        rw [← hchannel]
        exact h.chain n
    · rw [update_of_ne hthis] at hk
      rw [update_of_ne hthis, update_of_ne hthis]
      exact h.expects m k hk
  · by_cases hthis : m = n
    · rw [hthis, update_self, Option.some.injEq] at hanswer
      rw [hthis, ← hanswer]
      exact hproper
    · rw [update_of_ne hthis] at hanswer
      exact h.heard m answer' hanswer

section

variable (h : Sound server quickReplies config normalize s)
include h

theorem sound_chunk {n index : ℕ}
    {env : Composing.Env} (hfresh : Fresh s env) {rest : List (Answer × ℕ)}
    (hchannel : s.channel n = (answer, index) :: rest) (hexpected : s.expected n = some index)
    {response : TbResponse}
    (hresponse : (answer.messages normalize s.compose.config)[index]? = some response) :
    Sound server quickReplies config normalize
      (State.respond { s with
        channel := update s.channel n rest
        expected := update s.expected n (if response.final then none else some (index + 1))
        heard := update s.heard n (some answer)
        shown := s.shownAfter n answer index } n response env) := by
  have hother : ∀ m, m ≠ n → update s.expected n
      (if response.final then none else some (index + 1)) m = s.expected m :=
    fun m hm => update_of_ne hm _ _
  have hheard : ∀ m, m ≠ n → update s.heard n (some answer) m = s.heard m :=
    fun m hm => update_of_ne hm _ _
  have hlive : s.expected n ≠ none := by
    rw [hexpected]
    nofun
  have hproper := h.carried.proper n (answer, index) (hchannel ▸ mem_cons_self)
  have hcarried := h.carried.chunk hchannel response.final (s.shownAfter n answer index)
  have hknown : s.requests n ≠ none := by
    intro hnone
    rw [(h.carried.unknown n hnone).1] at hchannel
    cases hchannel
  have hnonzero : n ≠ 0 := by
    rintro rfl
    exact hknown h.carried.zero
  have hidle : ∀ compose : TbCompose,
      (compose.templatesPending = 0 ∨ compose.templatesPending = s.compose.templatesPending) →
      (compose.draftPending = 0 ∨ compose.draftPending = s.compose.draftPending) →
      env.submitted.sequence ≠ 0 → compose.templatesPending ≠ env.submitted.sequence ∧
        compose.draftPending ≠ env.submitted.sequence := by
    intro compose htemplates hdraft hsubmitted
    refine ⟨fun hthis => ?_, fun hthis => ?_⟩
    · rcases htemplates with hnone | hsame
      · exact hsubmitted (hthis.symm.trans hnone)
      · exact h.presents.pending_ne hfresh hsubmitted (hsame.symm.trans hthis)
    · rcases hdraft with hnone | hsame
      · exact hsubmitted (hthis.symm.trans hnone)
      · exact h.drafts.pending_ne hfresh hsubmitted (hsame.symm.trans hthis)
  cases answer with
  | refused code =>
    have hmessages : ([{ outcome := .response, result := code }] : List TbResponse)[index]? =
        some response := hresponse
    obtain ⟨rfl, rfl⟩ : index = 0 ∧ ({ outcome := .response, result := code } : TbResponse) =
        response := by
      cases index with
      | zero => exact ⟨rfl, Option.some.inj hmessages⟩
      | succ _ => cases hmessages
    have hnone : update s.expected n none n = none := update_self ..
    refine sound_without ⟨hcarried, ?_, ?_⟩ hfresh (.inr (.inr ⟨rfl, rfl, fun hthis => ?_⟩))
    · exact h.presents.kept (.refl _) rfl hother hheard (.inl hnone)
    · exact h.drafts.kept (.refl _) hother hheard (.inl hnone) (.inl hlive)
    · obtain rfl : n = s.compose.draftPending := hthis
      rcases h.drafts.hearing hnonzero 0 hexpected with ⟨-, htext⟩ | ⟨hne, -⟩
      · exact htext
      · exact absurd rfl hne
  | templates listing stale inboxSize =>
    have hrequest : s.requests n = some .templates := by
      cases hthis : s.requests n with
      | none => exact absurd hthis hknown
      | some request =>
        rw [hthis] at hproper
        cases request with
        | templates => rfl
        | pick _ _ _ | dictated _ => exact hproper.elim
    have hdraft : s.compose.draftPending ≠ n := by
      rintro rfl
      obtain ⟨-, request, hsome, hkind⟩ := h.drafts.request hnonzero
      rw [hrequest, Option.some.injEq] at hsome
      exact hkind hsome.symm
    by_cases hpending : s.compose.templatesPending = n
    · obtain ⟨hpresents, hkeeps, hends⟩ := presents_heard h.carried h.presents hpending hnonzero
        hchannel hexpected hresponse env (update s.channel n rest)
      rw [respond_templates]
      swap
      · exact hrequest
      rw [composed_idle _ (hidle _ (hends.imp_right fun hsame => hsame.trans hpending.symm)
        (.inr hkeeps.pending))]
      refine ⟨?_, hpresents, h.drafts.kept hkeeps hother hheard (.inr hdraft) (.inl hlive)⟩
      exact ⟨hcarried.zero, hcarried.unknown, hcarried.loads, hcarried.chain, hcarried.expects,
        hcarried.proper, hcarried.heard, hcarried.offered, hcarried.stored⟩
    · have hshown : s.shownAfter n (.templates listing stale inboxSize) index = s.shown := by
        rw [State.shownAfter, if_neg fun hthis => hpending hthis.2.1.symm]
      have hsame : s.compose.templatesDone env n response = s.compose :=
        if_pos (.inl fun hthis => hpending hthis.symm)
      rw [respond_templates]
      swap
      · exact hrequest
      rw [hsame, composed_idle _ (hidle _ (.inr rfl) (.inr rfl)), hshown]
      rw [hshown] at hcarried
      exact ⟨hcarried, h.presents.kept (.refl _) rfl hother hheard (.inr hpending),
        h.drafts.kept (.refl _) hother hheard (.inr hdraft) (.inl hlive)⟩
  | draft id text inboxSize =>
    obtain ⟨request, hrequest, hkind⟩ : ∃ request, s.requests n = some request ∧
        request ≠ .templates := by
      cases hthis : s.requests n with
      | none => exact absurd hthis hknown
      | some request =>
        rw [hthis] at hproper
        cases request with
        | templates => exact hproper.elim
        | pick _ _ _ | dictated _ => exact ⟨_, rfl, nofun⟩
    have htemplates : s.compose.templatesPending ≠ n := by
      rintro rfl
      have hsome := h.presents.request hnonzero
      rw [hrequest, Option.some.injEq] at hsome
      exact hkind hsome
    by_cases hpending : s.compose.draftPending = n
    · obtain ⟨hdrafts, hkeeps, hsame, hends⟩ := drafts_heard h.carried h.drafts hpending hnonzero
        hchannel hexpected hresponse env (update s.channel n rest) s.shown
      rw [respond_draft _ hkind]
      swap
      · exact hrequest
      rw [composed_idle _ (hidle _ (.inr hsame) (hends.imp_right fun hthis => hthis.trans hpending.symm))]
      refine ⟨?_, h.presents.kept hkeeps hsame hother hheard (.inr htemplates), hdrafts⟩
      exact ⟨hcarried.zero, hcarried.unknown, hcarried.loads, hcarried.chain, hcarried.expects,
        hcarried.proper, hcarried.heard, hcarried.offered, hcarried.stored⟩
    · have hsame : s.compose.draftDone env n response = s.compose :=
        if_pos (.inl fun hthis => hpending hthis.symm)
      rw [respond_draft _ hkind]
      swap
      · exact hrequest
      rw [hsame, composed_idle _ (hidle _ (.inr rfl) (.inr rfl))]
      exact ⟨hcarried, h.presents.kept (.refl _) rfl hother hheard (.inr htemplates),
        h.drafts.kept (.refl _) hother hheard (.inr hpending) (.inl hlive)⟩

theorem sound_deliver (n : ℕ) {env : Composing.Env} (hfresh : Fresh s env) :
    Sound server quickReplies config normalize (s.deliver normalize n env) := by
  unfold State.deliver
  cases hchannel : s.channel n with
  | nil => exact h
  | cons chunk rest =>
    obtain ⟨answer, index⟩ := chunk
    have hsuffix : rest <:+ s.channel n := by
      rw [hchannel]
      exact suffix_cons _ _
    dsimp only
    cases hexpected : s.expected n with
    | none =>
      have hsame : update s.expected n none = s.expected := by
        rw [← hexpected, update_eq_self]
      have hdone := sound_completed h n hsuffix
      rw [hsame] at hdone
      exact hdone
    | some next =>
      cases hresponse : (answer.messages normalize s.compose.config)[index]? with
      | none => exact h
      | some response =>
        dsimp only
        by_cases hnext : index ≠ next
        · rw [if_pos hnext]
          exact sound_without (sound_completed h n hsuffix) hfresh (.inl nofun)
        · rw [if_neg hnext]
          rw [not_not] at hnext
          subst hnext
          exact sound_chunk h hfresh hchannel hexpected hresponse

theorem sound_ended (n : ℕ)
    (outcome : TbRequestOutcome) {env : Composing.Env} (hfresh : Fresh s env) :
    Sound server quickReplies config normalize (s.ended n outcome env) := by
  rw [State.ended]
  split
  · exact h
  · rename_i houtcome
    have hdone := sound_completed h n (suffix_refl (s.channel n))
    rw [update_eq_self] at hdone
    exact sound_without hdone hfresh (.inl houtcome)

theorem sound_lost
    {channel : ℕ → List (Answer × ℕ)} (hlost : ∀ m, channel m = [] ∨ channel m = s.channel m) :
    Sound server quickReplies config normalize { s with channel } := by
  refine ⟨h.carried.taken (fun m => ?_) (fun m hm => (h.carried.unknown m hm).2) (fun m k hk => ?_)
    h.carried.heard, ?_, ?_⟩
  · rcases hlost m with hnone | hsame
    · rw [hnone]
      exact nil_suffix
    · rw [hsame]
  · obtain ⟨answer, hheard, hchain⟩ := h.carried.expects m k hk
    refine ⟨answer, hheard, ?_⟩
    rcases hlost m with hnone | hsame
    · rw [hnone]
      exact isChain_singleton _
    · rwa [hsame]
  · exact ⟨h.presents.config, h.presents.shown, h.presents.request, h.presents.hearing⟩
  · exact ⟨h.drafts.opened, h.drafts.request, h.drafts.hearing, h.drafts.ready, h.drafts.settled⟩

end

theorem arrive_frame (s : State) (normalize : JsString → JsString)
    (decodeUtf8 : List UInt8 → JsString) (sequence : ℕ) (rejected : Option ℤ) (storage : Bool)
    (inboxSize : ℕ) : ∃ channel counter loads,
      s.arrive normalize decodeUtf8 sequence rejected storage inboxSize =
        { s with channel, counter, loads } := by
  have hdrafted : ∀ raw, ∃ channel counter loads,
      s.drafted normalize sequence raw storage inboxSize = { s with channel, counter, loads } := by
    intro raw
    rw [State.drafted]
    split
    · exact ⟨_, _, _, rfl⟩
    · exact ⟨_, _, _, rfl⟩
  unfold State.arrive
  split
  · exact ⟨_, _, _, rfl⟩
  · split
    · exact ⟨_, _, _, rfl⟩
    · exact ⟨_, _, _, rfl⟩
  · exact ⟨_, _, _, rfl⟩
  · exact hdrafted _
  · split
    · exact ⟨_, _, _, rfl⟩
    · exact hdrafted _

theorem replied_frame (s : State) (normalize : JsString → JsString) (load : ℕ) (result : Result)
    (written : Bool) (inboxSize : ℕ) : ∃ channel stored loads,
      s.replied normalize load result written inboxSize = { s with channel, stored, loads } := by
  rw [State.replied]
  split
  · exact ⟨_, _, _, rfl⟩
  · exact ⟨_, _, _, rfl⟩

theorem Sound.untouched (h : Sound server quickReplies config normalize s)
    {channel : ℕ → List (Answer × ℕ)} {settings : Option Settings} {stored : Option Listing}
    {counter : ℕ} {loads : List (ℕ × Settings)}
    (hcarried : Carried server quickReplies config normalize
      { s with channel, settings, stored, counter, loads }) :
    Sound server quickReplies config normalize
      { s with channel, settings, stored, counter, loads } :=
  ⟨hcarried, ⟨h.presents.config, h.presents.shown, h.presents.request, h.presents.hearing⟩,
    ⟨h.drafts.opened, h.drafts.request, h.drafts.hearing, h.drafts.ready, h.drafts.settled⟩⟩

theorem sound_step [DecidableEq ι] (decodeUtf8 : List UInt8 → JsString)
    (h : Sound server quickReplies config normalize s) {event : Event}
    (hmeets : Meets server quickReplies normalize s event) :
    Sound server quickReplies config normalize (s.step normalize decodeUtf8 event) := by
  cases event with
  | user event env => exact sound_user h event hmeets.1
  | deliver sequence env => exact sound_deliver h sequence hmeets.1
  | drop sequence =>
    refine sound_lost h fun m => ?_
    by_cases hthis : m = sequence
    · rw [hthis, update_self]
      exact .inl rfl
    · rw [update_of_ne hthis]
      exact .inr rfl
  | ended sequence outcome env => exact sound_ended h sequence outcome hmeets.1
  | arrive sequence rejected storage inboxSize =>
    have hcarried := h.carried.arrive decodeUtf8 sequence rejected storage inboxSize fun hnone => by
      rw [hnone] at hmeets
      exact hmeets.2
    obtain ⟨_, _, _, hframe⟩ :=
      arrive_frame s normalize decodeUtf8 sequence rejected storage inboxSize
    show Sound _ _ _ _ (s.arrive normalize decodeUtf8 sequence rejected storage inboxSize)
    rw [hframe] at hcarried ⊢
    exact h.untouched hcarried
  | replied load result written inboxSize =>
    have hcarried := h.carried.replied load result written inboxSize fun replies hok => by
      rw [hok] at hmeets
      exact hmeets.1
    obtain ⟨_, _, _, hframe⟩ := replied_frame s normalize load result written inboxSize
    show Sound _ _ _ _ (s.replied normalize load result written inboxSize)
    rw [hframe] at hcarried ⊢
    exact h.untouched hcarried
  | settings value =>
    exact h.untouched ⟨h.carried.zero, h.carried.unknown, h.carried.loads, h.carried.chain,
      h.carried.expects, h.carried.proper, h.carried.heard, h.carried.offered, h.carried.stored⟩
  | forget =>
    exact h.untouched ⟨h.carried.zero, h.carried.unknown, h.carried.loads, h.carried.chain,
      h.carried.expects, h.carried.proper, h.carried.heard, h.carried.offered, nofun⟩
  | restart =>
    have hlost := @sound_lost ι server quickReplies normalize config s h (fun _ => []) fun _ => .inl rfl
    exact hlost.untouched ⟨hlost.carried.zero, hlost.carried.unknown, nofun, hlost.carried.chain,
      hlost.carried.expects, hlost.carried.proper, hlost.carried.heard, hlost.carried.offered,
      hlost.carried.stored⟩

/-! ### Every run -/

/-- A draft that is ready, of a template that was picked, is the one that the phone made of the reply
whose preview was shown; and its text is all that the phone has encoded of it, exactly where there is
room for that. -/
def Agrees (config : TbComposeConfig) (normalize : JsString → JsString) (s : State) : Prop :=
  s.compose.draft = .ready → ∀ sequence revision index picked, s.drafting = some sequence →
    s.requests sequence = some (.pick revision index picked) →
    ∃ id text inboxSize, s.heard sequence = some (.draft id text inboxSize) ∧
      s.compose.draftId = id ∧ Faithful config normalize picked index text ∧
      (s.compose.text = some (shownDraft normalize text config.textLimit).bytes ↔
        (shownDraft normalize text config.textLimit).bytes.length ≤
          min (utf8Bytes text) config.textLimit + 2)

/-- The draft that the watch is at is asked for, is ready, or has failed. -/
def Settles (s : State) : Prop :=
  ∀ sequence, s.drafting = some sequence → s.compose.draftPending = sequence ∨
    s.compose.draft = .ready ∨ s.compose.draft = .failed

/-- If the phone no longer has the templates, the draft fails and they are asked for again. -/
def Reloads (decodeUtf8 : List UInt8 → JsString) (normalize : JsString → JsString) (s : State) : Prop :=
  ∀ sequence rest env, sequence ≠ 0 → s.compose.draftPending = sequence →
    s.expected sequence = some 0 → s.channel sequence = (.refused cursorLost, 0) :: rest →
    Fresh s env →
    let after := s.step normalize decodeUtf8 (.deliver sequence env)
    after.compose.draft = .failed ∧ after.compose.calls.getLast? = some (.submit .templatesDone) ∧
      (env.submitted.sequence ≠ 0 → after.compose.templates = .loading ∧
        after.requests env.submitted.sequence = some .templates ∧
        after.expected env.submitted.sequence = some 0)

theorem Made.text_iff {compose : TbCompose} {id inboxSize : ℕ} {text : JsString}
    (hsome : compose.text ≠ none)
    (hholds : Holds compose (draftItems normalize compose.config id text inboxSize)) :
    compose.text = some (shownDraft normalize text compose.config.textLimit).bytes ↔
      (shownDraft normalize text compose.config.textLimit).bytes.length ≤
        min (utf8Bytes text) compose.config.textLimit + 2 := by
  obtain ⟨htext, -⟩ := hholds.resolve_left hsome
  have hshort : (shownDraft normalize text compose.config.textLimit).bytes.length ≤ 8192 :=
    (length_encode_le normalize text _ false).trans (by omega)
  rw [draftItems] at htext
  generalize (shownDraft normalize text compose.config.textLimit).bytes = bytes at hshort htext ⊢
  have hflat : (splitUtf8 bytes (Texts.budget inboxSize - 16)).flatten = bytes :=
    flatten_splitUtf8 _ _
  have hiff := items_iff { config := compose.config } {
    id := ofLength id
    bytes := ofLength (utf8Bytes text)
    units := ofLength text.length
    flags := ofLength (if maxTextUnits < text.length then 1 else 0) }
    (by rw [hflat]; omega : (splitUtf8 bytes (Texts.budget inboxSize - 16)).flatten.length < 65536)
  rw [hflat, clamped_ofLength_min, TbCompose.held, ← htext] at hiff
  obtain ⟨held, hheld⟩ := Option.ne_none_iff_exists'.1 hsome
  rw [hheld, Option.getD_some] at hiff
  rw [hheld, Option.some.injEq, hiff]
  show _ ≤ min (min (utf8Bytes text) 65535) compose.config.textLimit + 2 ↔ _
  omega

theorem Sound.agrees (h : Sound server quickReplies config normalize s) : Agrees config normalize s := by
  intro hready sequence revision index picked hdrafting hrequest
  obtain ⟨-, -, id, text, inboxSize, hheard, hid, hsome, hholds⟩ :=
    h.drafts.ready hready sequence hdrafting
  have hproper := h.carried.heard sequence _ hheard
  rw [hrequest] at hproper
  refine ⟨id, text, inboxSize, hheard, hid, hproper.2, ?_⟩
  rw [← h.presents.config]
  exact Made.text_iff hsome hholds

theorem loadTemplates_asks {compose : TbCompose} (env : Composing.Env)
    (hopened : compose.opened = true) :
    (compose.loadTemplates env).calls.getLast? = some (.submit .templatesDone) ∧
      (env.submitted.sequence ≠ 0 → (compose.loadTemplates env).templates = .loading ∧
        (compose.loadTemplates env).templatesPending = env.submitted.sequence) := by
  rw [TbCompose.loadTemplates, if_neg (by rw [hopened]; exact not_not.2 rfl)]
  by_cases hsubmitted : env.submitted.sequence = 0
  · rw [if_pos hsubmitted]
    exact ⟨List.getLast?_concat, fun hne => absurd hsubmitted hne⟩
  · rw [if_neg hsubmitted]
    exact ⟨List.getLast?_concat, fun _ => ⟨rfl, rfl⟩⟩

theorem Sound.reloads (h : Sound server quickReplies config normalize s)
    (decodeUtf8 : List UInt8 → JsString) : Reloads decodeUtf8 normalize s := by
  intro n rest env hnonzero hpending hexpected hchannel hfresh after
  obtain ⟨hopened, -⟩ := h.drafts.opened (hpending ▸ hnonzero)
  obtain ⟨-, request, hrequest, hkind⟩ := h.drafts.request (hpending ▸ hnonzero)
  rw [hpending] at hrequest
  have hafter : after = State.respond { s with
      channel := update s.channel n rest
      expected := update s.expected n none
      heard := update s.heard n (some (.refused cursorLost))
      shown := s.shownAfter n (.refused cursorLost) 0 } n
        { outcome := .response, result := cursorLost } env := by
    show s.deliver normalize n env = _
    unfold State.deliver
    rw [hchannel, hexpected]
    rfl
  rw [respond_draft _ hkind] at hafter
  swap
  · exact hrequest
  have hdone : s.compose.draftDone env n { outcome := .response, result := cursorLost } =
      (refused s.compose { outcome := .response, result := cursorLost }).loadTemplates env := by
    rw [← hpending, draftDone_refused s.compose env (by decide) (.inr (by decide))]
    exact if_pos rfl
  obtain ⟨hcalls, hloading⟩ := loadTemplates_asks env
    (show (refused s.compose { outcome := .response, result := cursorLost }).opened = true from hopened)
  obtain ⟨hturn, hkeeps⟩ := loadTemplates_turn
    (refused s.compose { outcome := .response, result := cursorLost }) env
  rw [hdone] at hafter
  generalize (refused s.compose { outcome := .response, result := cursorLost }).loadTemplates env =
    compose at hafter hcalls hloading hkeeps
  have hcompose : after.compose = compose := by
    rw [hafter]
    exact (composed_rest compose env .templates).1
  refine ⟨?_, ?_, fun hsubmitted => ?_⟩
  · rw [hcompose]
    exact hkeeps.draft
  · rw [hcompose]
    exact hcalls
  · obtain ⟨htemplates, hasked⟩ := hloading hsubmitted
    rw [hcompose]
    rw [State.composed, if_pos ⟨hsubmitted, hasked⟩] at hafter
    rw [hafter]
    exact ⟨htemplates, update_self .., update_self ..⟩

/-- **The reply that is drafted is the one that was picked.** In every run in which drafts are made of
the list that was shown, whatever else happens between the watch, the phone and the server: a draft
that is ready is the canonical text of the reply whose preview was picked, and where the phone no
longer has the templates, the draft fails and they are asked for again. -/
theorem reply_of_run [DecidableEq ι] (server : Settings → ι) (quickReplies : ι → ℤ → List JsString)
    (normalize : JsString → JsString) (decodeUtf8 : List UInt8 → JsString) (config : TbComposeConfig)
    (events : List Event)
    (hcheck : check (State.step normalize decodeUtf8) (Meets server quickReplies normalize)
      { compose := { config } } events = true) :
    ∀ before, before <+: events →
      let s := before.foldl (State.step normalize decodeUtf8) { compose := { config } }
      Agrees config normalize s ∧ Settles s ∧ Reloads decodeUtf8 normalize s := by
  intro before hbefore s
  have hstep : ∀ s, ∀ event ∈ events, Sound server quickReplies config normalize s →
      Meets server quickReplies normalize s event →
      Sound server quickReplies config normalize (s.step normalize decodeUtf8 event) :=
    fun s event _ h hmeets => sound_step decodeUtf8 h hmeets
  have hsound : Sound server quickReplies config normalize s :=
    always_of_check (State.step normalize decodeUtf8) hstep sound_init hcheck before hbefore
  exact ⟨hsound.agrees, hsound.drafts.settled, hsound.reloads decodeUtf8⟩

/-! ### Three runs -/

def settingsOf (letter : ℕ) : Settings := ⟨[letter], true, [116]⟩

def given (sequence : ℕ) : Composing.Env := ⟨⟨sequence, .timeout⟩, true, fun _ => true⟩

def repliesOf (server : JsString) (_revision : ℤ) : List JsString :=
  if server = [97] then [[89]] else [[78]]

def composing (text : JsString) : JsString := if text = [101, 769] then [233] else text

def opening (reply : JsString) : List Event :=
  [.settings (some (settingsOf 97)), .user (.open { account := [49], chat := [50] }) (given 1),
    .arrive 1 none true 2048, .replied 0 (.ok ⟨some 1, [reply]⟩) true 2048, .deliver 1 (given 0)]

def picking (sequence : ℕ) : List Event :=
  [.user (.pick 0) (given sequence), .arrive sequence none true 2048]

/-- The settings change, and the phone starts anew before it tells the watch: a pick is refused, and
the next one comes while the new templates are on their way. -/
def changedServer : List Event :=
  opening [89] ++ [.settings (some (settingsOf 98)), .restart] ++ picking 2 ++
    [.deliver 2 (given 3), .arrive 3 none true 2048,
      .replied 0 (.ok ⟨some 1, [[78]]⟩) true 2048] ++ picking 4 ++ [.deliver 4 (given 0)]

def timedOut : List Event := opening [89] ++ [.user (.pick 0) (given 2), .ended 2 .timeout (given 0)]

def accented : List Event := opening [101, 1, 769] ++ picking 2 ++ [.deliver 2 (given 0)]

def watchConfig : TbComposeConfig := ⟨8, 41, 1024⟩

def after (events : List Event) : State :=
  events.foldl (State.step composing (List.map UInt8.toNat)) { compose := { config := watchConfig } }

/-- The template that was picked is drafted. -/
theorem reply_of_run_opening :
    check (State.step composing (List.map UInt8.toNat))
      (Meets Settings.address repliesOf composing) { compose := { config := watchConfig } }
      (opening [89] ++ picking 2 ++ [.deliver 2 (given 0)]) = true ∧
      (after (opening [89] ++ picking 2 ++ [.deliver 2 (given 0)])).compose.draft = .ready ∧
      Agrees watchConfig composing (after (opening [89] ++ picking 2 ++ [.deliver 2 (given 0)])) := by
  have hcheck : check (State.step composing (List.map UInt8.toNat))
      (Meets Settings.address repliesOf composing) { compose := { config := watchConfig } }
      (opening [89] ++ picking 2 ++ [.deliver 2 (given 0)]) = true := by
    decide +kernel
  refine ⟨hcheck, by decide +kernel, ?_⟩
  exact (reply_of_run Settings.address repliesOf composing (List.map UInt8.toNat) watchConfig _ hcheck
    _ (List.prefix_refl _)).1

theorem not_agrees {sequence revision index : ℕ} {listing : Listing} {preview : CString}
    {id inboxSize : ℕ} {text reply : JsString} (hready : s.compose.draft = .ready)
    (hdrafting : s.drafting = some sequence)
    (hrequest : s.requests sequence = some (.pick revision index ⟨some listing, preview⟩))
    (hheard : s.heard sequence = some (.draft id text inboxSize))
    (hreply : (listing.quickReplies normalize)[index]? = some reply)
    (hother : text ≠ canonical normalize reply) : ¬ Agrees config normalize s := by
  intro hagrees
  obtain ⟨_, text', _, hheard', -, ⟨listing', reply', hlisting, hreply', -, htext⟩, -⟩ :=
    hagrees hready sequence revision index _ hdrafting hrequest
  obtain ⟨-, rfl, -⟩ := Answer.draft.inj (Option.some.inj (hheard.symm.trans hheard'))
  obtain rfl : listing = listing' := Option.some.inj hlisting
  obtain rfl : reply = reply' := Option.some.inj (hreply.symm.trans hreply')
  exact hother htext

/-- The reply of another server is drafted; a pick that is not answered loads nothing; and a text may
be canonical only after it has been made so twice. -/
theorem other_reply_drafted :
    (check (State.step composing (List.map UInt8.toNat)) (Assumes Settings.address repliesOf)
        { compose := { config := watchConfig } } changedServer = true ∧
      ¬ Agrees watchConfig composing (after changedServer)) ∧
    (check (State.step composing (List.map UInt8.toNat)) (Assumes Settings.address repliesOf)
        { compose := { config := watchConfig } } timedOut = true ∧
      (after timedOut).compose.draft = .failed ∧ (after timedOut).compose.templatesPending = 0) ∧
    check (State.step composing (List.map UInt8.toNat))
        (Assumes Settings.address fun _ _ => [[101, 1, 769]])
        { compose := { config := watchConfig } } accented = true ∧
      ¬ Agrees watchConfig composing (after accented) := by
  refine ⟨⟨by decide +kernel, ?_⟩, ⟨by decide +kernel, by decide +kernel, by decide +kernel⟩,
    by decide +kernel, ?_⟩
  · have hrequest : (after changedServer).requests 4 =
        some (.pick 1 0 ⟨some ⟨settingsOf 97, ⟨some 1, [[89]]⟩⟩, [89]⟩) := by decide +kernel
    have hheard : (after changedServer).heard 4 = some (.draft 1 [78] 2048) := by decide +kernel
    have hreply : (Listing.quickReplies composing ⟨settingsOf 97, ⟨some 1, [[89]]⟩⟩)[0]? = some [89] := by
      decide +kernel
    exact not_agrees (by decide +kernel) (by decide +kernel) hrequest hheard hreply (by decide +kernel)
  · have hrequest : (after accented).requests 2 =
        some (.pick 1 0 ⟨some ⟨settingsOf 97, ⟨some 1, [[101, 1, 769]]⟩⟩, [195, 169]⟩) := by
      decide +kernel
    have hheard : (after accented).heard 2 = some (.draft 1 [233] 2048) := by decide +kernel
    have hreply : (Listing.quickReplies composing
        ⟨settingsOf 97, ⟨some 1, [[101, 1, 769]]⟩⟩)[0]? = some [101, 1, 769] := by decide +kernel
    exact not_agrees (by decide +kernel) (by decide +kernel) hrequest hheard hreply (by decide +kernel)

end Picking
