import TeleBezel.Watch.ChatsArmed
import TeleBezel.Watch.HistoryBudget
import TeleBezel.Watch.TextParts

/-!
# What the chat list holds

The list adds the chats of a page as its chunks arrive, without those that it has already, and stops at
the first one for which there is no room: the page is then read to its end, but no more of it is
added. A page that fails is asked for again. When it fails after the list has stopped, `fail` forgets
that it has, and what the page brings the next time is added behind the gap.
-/

open List

namespace Watch.ChatsView

open Transition HistoryView TbChats

/-! ### What the list is given -/

/-- The loop of `brought`. -/
def broughtLoop : ℕ → TbCursor → List TbChatRecord
  | 0, _ => []
  | fuel + 1, cursor =>
    match tbCodecNext cursor with
    | none => []
    | some (type, body, cursor) =>
      if type = tbRecordSummary then
        if (tbCodecSummary body).isSome then broughtLoop fuel cursor else []
      else
        match tbCodecChat body with
        | none => []
        | some record =>
          if type = tbRecordChat ∧ (tbCopyId [] tbTelegramIdSize record.id true).1 = true then
            record :: broughtLoop fuel cursor
          else []

def brought (payload : List UInt8) : List TbChatRecord := broughtLoop payload.length payload

def TbChatRecord.string (record : TbChatRecord) : ChatString → List UInt8
  | .title => record.title
  | .sender => record.previewSender
  | .extra => record.previewExtra
  | .preview => record.previewText

/-- The records in the order in which they came, without those whose identifiers came before. -/
def distinct (records : List TbChatRecord) : List TbChatRecord :=
  records.foldl (fun held record =>
    if held.any (fun other => other.id = record.id) then held else held ++ [record]) []

def TbChats.Hears (chats : TbChats) (sequence : ℕ) (response : TbResponse) : Prop :=
  sequence = chats.pending ∧ response.outcome ≠ .cancelled

def Carries (response : TbResponse) : Prop :=
  response.outcome = .response ∧ response.result = tbResultOk

instance (chats : TbChats) (sequence : ℕ) (response : TbResponse) :
    Decidable (chats.Hears sequence response) := by
  unfold TbChats.Hears
  infer_instance

instance (response : TbResponse) : Decidable (Carries response) := by
  unfold Carries
  infer_instance

def received (chats : TbChats) (records : List TbChatRecord) : Event → List TbChatRecord
  | .open _ _ | .setList _ | .close => []
  | .response sequence response _ =>
    if chats.Hears sequence response ∧ Carries response then
      (if response.index = 0 ∧ chats.load ≠ .more then [] else records) ++ brought response.payload
    else records
  | _ => records

def observe (config : TbChatsConfig) (s : TbChats × List TbChatRecord) (event : Event × Env) :
    TbChats × List TbChatRecord :=
  (step config s.1 event, received s.1 s.2 event.1)

/-- No string of a response has a NUL. -/
def Clean : Event → Prop
  | .response _ response _ =>
    ∀ record ∈ brought response.payload, ∀ field ∈ ChatString.all, (0 : UInt8) ∉ record.string field
  | _ => True

/-! ### What it holds -/

def TbChat.taken (item : TbChat) : ℕ :=
  (ChatString.all.map fun field => HistoryView.taken (item.strings field)).sum

/-- The chats within their limits. -/
structure Contents (config : TbChatsConfig) (chats : TbChats) : Prop where
  room : chats.items.length ≤ config.capacity
  ids : (chats.items.map TbChat.id).Nodup
  clean : ∀ item ∈ chats.items, ∀ field value, item.strings field = some value → (0 : UInt8) ∉ value
  used : chats.used = (chats.items.map TbChat.taken).sum
  within : chats.used ≤ config.textBudget

/-- A chat is what `append` makes of a record. -/
def Shows (config : TbChatsConfig) (item : TbChat) (record : TbChatRecord) : Prop :=
  ∃ malloc used, item = (chatOf config malloc used record record.id).1

/-- The list is the records received, in their order and without repeated identifiers, up to where it
has stopped. -/
def Segment (config : TbChatsConfig) (chats : TbChats) (records : List TbChatRecord) : Prop :=
  ∃ shown, shown <+: distinct records ∧ List.Forall₂ (Shows config) chats.items shown ∧
    (chats.tail ≠ .full → shown = distinct records)

/-- A call does not resume a list that has stopped: while a further page is loaded, neither the page
fails once the list is full, nor does it begin again. -/
def Keeps (config : TbChatsConfig) (chats : TbChats) : Event × Env → Prop
  | (.response sequence response flags, env) =>
    chats.Hears sequence response → chats.load = .more →
      if Carries response then
        (response.index = 0 → chats.tail = .full → config.capacity ≤ chats.items.length) ∧
          let chunk := (if response.index = 0 then chats.begun config flags else chats).parse config env
            response.payload
          chunk.1.tail = .full → chunk.2 = true
      else
        chats.tail = .full →
          tbErrorFromResponse response = tbResultCursorLost ∧ chats.resynced = false
  | _ => True

variable {config : TbChatsConfig} {env : Env} {chats : TbChats} {records : List TbChatRecord}

theorem distinct_snoc (records : List TbChatRecord) (record : TbChatRecord) :
    distinct (records ++ [record]) =
      if (distinct records).any (fun other => other.id = record.id) then distinct records
      else distinct records ++ [record] := by
  simp [distinct, foldl_append]

theorem distinct_mono (records records' : List TbChatRecord) :
    distinct records <+: distinct (records ++ records') := by
  induction records' using List.reverseRecOn with
  | nil => simp
  | append_singleton records' record ih =>
    rw [← append_assoc, distinct_snoc]
    split_ifs
    · exact ih
    · exact ih.trans (prefix_append _ _)

/-! ### A string and a chat -/

theorem tbBudgetCopy_spec (limit used : ℕ) (value : List UInt8) (maxLength : ℕ) (allocated : Bool) :
    let copy := tbBudgetCopy limit used value maxLength allocated
    copy.2 = used + HistoryView.taken copy.1 ∧ (used ≤ limit → copy.2 ≤ limit) ∧
      ∀ bytes, copy.1 = some bytes → bytes ⊆ value := by
  have hle := (cutTo_le (maxLength + 1 - 1) value).1
  rw [← tbUtf8Fit_eq] at hle
  unfold tbBudgetCopy
  dsimp only
  split_ifs with hempty hroom
  · exact ⟨rfl, id, nofun⟩
  · exact ⟨rfl, id, nofun⟩
  · simp only [not_or, not_lt] at hroom
    refine ⟨?_, fun _ => hroom.2.1, ?_⟩
    · simp only [HistoryView.taken, length_take, Nat.min_eq_left hle]
      omega
    · rintro bytes ⟨⟩
      exact take_subset _ _

theorem chatOf_spec (config : TbChatsConfig) (malloc : ChatString → Bool) (used : ℕ) (record : TbChatRecord)
    (id : CString) :
    let made := chatOf config malloc used record id
    made.2 = used + made.1.taken ∧ (used ≤ config.textBudget → made.2 ≤ config.textBudget) ∧
      ∀ field bytes, made.1.strings field = some bytes → bytes ⊆ record.string field := by
  unfold chatOf
  dsimp only
  obtain ⟨htitle, htitle', htitleOf⟩ :=
    tbBudgetCopy_spec config.textBudget used record.title tbTitleLimit (malloc .title)
  generalize tbBudgetCopy config.textBudget used record.title tbTitleLimit (malloc .title) = title at *
  obtain ⟨hsender, hsender', hsenderOf⟩ :=
    tbBudgetCopy_spec config.textBudget title.2 record.previewSender tbSenderLimit (malloc .sender)
  generalize tbBudgetCopy config.textBudget title.2 record.previewSender tbSenderLimit
    (malloc .sender) = sender at *
  obtain ⟨hextra, hextra', hextraOf⟩ :=
    tbBudgetCopy_spec config.textBudget sender.2 record.previewExtra tbExtraLimit (malloc .extra)
  generalize tbBudgetCopy config.textBudget sender.2 record.previewExtra tbExtraLimit
    (malloc .extra) = extra at *
  obtain ⟨hpreview, hpreview', hpreviewOf⟩ :=
    tbBudgetCopy_spec config.textBudget extra.2 record.previewText config.textLimit (malloc .preview)
  refine ⟨?_, fun h => hpreview' (hextra' (hsender' (htitle' h))), ?_⟩
  · simp only [TbChat.taken, ChatString.all, map_cons, map_nil, sum_cons, sum_nil]
    omega
  · rintro (_ | _ | _ | _) bytes hbytes
    · exact htitleOf bytes hbytes
    · exact hsenderOf bytes hbytes
    · exact hextraOf bytes hbytes
    · exact hpreviewOf bytes hbytes

theorem freeItem_of_clean {item : TbChat}
    (h : ∀ field value, item.strings field = some value → (0 : UInt8) ∉ value) (used : ℕ) :
    freeItem used item = used - item.taken :=
  foldl_tbBudgetFree h _ used

theorem Contents.clear (h : Contents config chats) : Contents config chats.clear := by
  have hused : ∀ (items : List TbChat) (used : ℕ),
      (∀ item ∈ items, ∀ field value, item.strings field = some value → (0 : UInt8) ∉ value) →
      items.foldl freeItem used = used - (items.map TbChat.taken).sum := by
    intro items used hclean
    induction items generalizing used with
    | nil => rfl
    | cons item items ih =>
      rw [foldl_cons, ih _ fun other hother => hclean other (mem_cons_of_mem _ hother),
        freeItem_of_clean (hclean item mem_cons_self), map_cons, sum_cons]
      omega
  have hzero : chats.clear.used = 0 := by
    rw [TbChats.clear, hused chats.items chats.used h.clean, h.used, Nat.sub_self]
  exact ⟨Nat.zero_le _, nodup_nil, nofun, hzero, hzero.trans_le (Nat.zero_le _)⟩

/-! ### A record -/

variable {chats' : TbChats} {record : TbChatRecord} {malloc : ChatString → Bool}

/-- **Inversion of `append`.** The list is full, or the chat is in it, or it is added. -/
theorem append_cases (h : chats.append config malloc record = some chats') :
    let made := chatOf config malloc chats.used record record.id
    (config.capacity ≤ chats.items.length ∧ chats' = { chats with tail := .full }) ∨
      (tbCopyId [] tbTelegramIdSize record.id true).1 = true ∧ chats.items.length < config.capacity ∧
        ((∃ item ∈ chats.items, item.id = record.id) ∧ chats' = chats ∨
          (∀ item ∈ chats.items, item.id ≠ record.id) ∧
            (chats' = { chats with used := freeItem made.2 made.1, tail := .full } ∨
              chats' = { chats with items := chats.items ++ [made.1], used := made.2 })) := by
  unfold append at h
  dsimp only
  split_ifs at h with hroom
  · exact Or.inl ⟨hroom, (Option.some.inj h).symm⟩
  refine Or.inr ?_
  split at h
  · cases h
  · rename_i id hcopy
    obtain rfl : id = record.id := HistoryView.tbCopyId_value hcopy
    refine ⟨by rw [hcopy], Nat.lt_of_not_le hroom, ?_⟩
    split_ifs at h with hheld
    · obtain ⟨item, hitem, heq⟩ := any_eq_true.mp hheld
      exact Or.inl ⟨⟨item, hitem, of_decide_eq_true heq⟩, (Option.some.inj h).symm⟩
    · refine Or.inr ⟨fun item hitem heq => hheld (any_eq_true.mpr ⟨item, hitem, by simp [heq]⟩), ?_⟩
      dsimp only at h
      split_ifs at h
      · exact Or.inl (Option.some.inj h).symm
      · exact Or.inr (Option.some.inj h).symm

theorem append_some (config : TbChatsConfig) (malloc : ChatString → Bool) (chats : TbChats)
    (hid : (tbCopyId [] tbTelegramIdSize record.id true).1 = true) :
    ∃ chats', chats.append config malloc record = some chats' := by
  unfold append
  split_ifs
  · exact ⟨_, rfl⟩
  split
  · rename_i hcopy
    rw [hcopy] at hid
    cases hid
  · dsimp only
    split_ifs <;> exact ⟨_, rfl⟩

theorem Contents.append (h : Contents config chats)
    (hclean : ∀ field, (0 : UInt8) ∉ record.string field)
    (happend : chats.append config malloc record = some chats') : Contents config chats' := by
  obtain ⟨hused, hwithin, hcopied⟩ := chatOf_spec config malloc chats.used record record.id
  have hmade : ∀ field value,
      (chatOf config malloc chats.used record record.id).1.strings field = some value →
      (0 : UInt8) ∉ value := fun field value hvalue hzero => hclean field (hcopied field value hvalue hzero)
  rcases append_cases happend with
    ⟨-, rfl⟩ | ⟨-, hroom, ⟨-, rfl⟩ | ⟨hnew, rfl | rfl⟩⟩
  · exact ⟨h.room, h.ids, h.clean, h.used, h.within⟩
  · exact h
  · -- what has been copied is given back
    have hback : freeItem (chatOf config malloc chats.used record record.id).2
        (chatOf config malloc chats.used record record.id).1 = chats.used := by
      rw [freeItem_of_clean hmade, hused, Nat.add_sub_cancel]
    exact ⟨h.room, h.ids, h.clean, hback.trans h.used, hback.trans_le h.within⟩
  · refine ⟨?_, ?_, ?_, ?_, hwithin h.within⟩
    · rw [length_append]
      exact hroom
    · rw [map_append, nodup_append]
      refine ⟨h.ids, by simp, ?_⟩
      rintro _ hid _ hlast rfl
      obtain ⟨item, hitem, heq⟩ := mem_map.mp hid
      exact hnew item hitem (heq.trans (mem_singleton.mp hlast))
    · intro item hitem
      rcases mem_append.mp hitem with hitem | hitem
      · exact h.clean item hitem
      · rw [mem_singleton.mp hitem]
        exact hmade
    · dsimp only
      rw [hused, h.used, map_append, sum_append]
      simp

theorem ids_of_shows {items : List TbChat} {shown : List TbChatRecord}
    (h : List.Forall₂ (Shows config) items shown) :
    items.map TbChat.id = shown.map TbChatRecord.id := by
  induction h with
  | nil => rfl
  | cons hshows _ ih =>
    obtain ⟨malloc, used, rfl⟩ := hshows
    rw [map_cons, map_cons, ih]
    rfl

theorem Segment.skip (h : Segment config chats records) (hfull : chats.tail = .full)
    (more : List TbChatRecord) : Segment config chats (records ++ more) := by
  obtain ⟨shown, hbegins, hshown, -⟩ := h
  exact ⟨shown, hbegins.trans (distinct_mono _ _), hshown, fun hne => absurd hfull hne⟩

theorem Segment.append (h : Segment config chats records) (hfull : chats.tail ≠ .full)
    (happend : chats.append config malloc record = some chats') :
    Segment config chats' (records ++ [record]) := by
  obtain ⟨shown, -, hshown, hwhole⟩ := h
  obtain rfl : shown = distinct records := hwhole hfull
  have hids := ids_of_shows hshown
  rcases append_cases happend with
    ⟨-, rfl⟩ | ⟨-, -, ⟨⟨item, hitem, heq⟩, rfl⟩ | ⟨hnew, rfl | rfl⟩⟩
  · exact ⟨_, distinct_mono _ _, hshown, fun hne => absurd rfl hne⟩
  · have hany : (distinct records).any (fun other => other.id = record.id) = true := by
      have hmem := mem_map_of_mem (f := TbChat.id) hitem
      rw [hids, heq] at hmem
      obtain ⟨other, hother, hid⟩ := mem_map.mp hmem
      exact any_eq_true.mpr ⟨other, hother, by simp [hid]⟩
    exact ⟨_, distinct_mono _ _, hshown, fun _ => by rw [distinct_snoc, if_pos hany]⟩
  · exact ⟨_, distinct_mono _ _, hshown, fun hne => absurd rfl hne⟩
  · have hany : ¬ (distinct records).any (fun other => other.id = record.id) = true := by
      intro hany
      obtain ⟨other, hother, hid⟩ := any_eq_true.mp hany
      have hmem := mem_map_of_mem (f := TbChatRecord.id) hother
      rw [← hids, of_decide_eq_true hid] at hmem
      obtain ⟨item, hitem, heq⟩ := mem_map.mp hmem
      exact hnew item hitem heq
    rw [Segment, distinct_snoc, if_neg hany]
    refine ⟨_, prefix_refl _, rel_append hshown ?_, fun _ => rfl⟩
    exact .cons ⟨malloc, chats.used, rfl⟩ .nil

/-! ### A payload -/

theorem parse_induct {keeps : TbChats → List TbChatRecord → Prop}
    (hsummary : ∀ chats records connection proxy unreadChats unreadMessages, keeps chats records →
      keeps { chats with connection, proxy, unreadChats, unreadMessages } records)
    (hskip : ∀ chats records more, chats.tail = .full → keeps chats records →
      keeps chats (records ++ more))
    (hfull : ∀ chats records, keeps chats records → keeps { chats with tail := .full } records)
    (happend : ∀ chats chats' records record malloc, (∀ field, (0 : UInt8) ∉ record.string field) →
      chats.tail ≠ .full → chats.append config malloc record = some chats' → keeps chats records →
      keeps chats' (records ++ [record]))
    (payload : List UInt8) (h : keeps chats records)
    (hclean : ∀ record ∈ brought payload, ∀ field, (0 : UInt8) ∉ record.string field) :
    keeps (chats.parse config env payload).1 (records ++ brought payload) := by
  unfold parse
  unfold brought at hclean ⊢
  -- a list that has stopped goes on as it is, also past where the records are well formed
  suffices h' : ∀ fuel index cursor chats records, keeps chats records →
      ((∀ record ∈ broughtLoop fuel cursor, ∀ field, (0 : UInt8) ∉ record.string field) →
        keeps (parseLoop config env.malloc fuel index cursor chats).1
          (records ++ broughtLoop fuel cursor)) ∧
        (chats.tail = .full →
          keeps (parseLoop config env.malloc fuel index cursor chats).1 records) from
    (h' _ _ _ _ _ h).1 hclean
  intro fuel
  induction fuel with
  | zero =>
    intro index cursor chats records h
    rw [broughtLoop, append_nil]
    cases cursor with
    | nil | cons c cursor => exact ⟨fun _ => h, fun _ => h⟩
  | succ fuel ih =>
    intro index cursor chats records h
    have hstop : keeps chats (records ++ []) := by rwa [append_nil]
    cases cursor with
    | nil => exact ⟨fun _ => hstop, fun _ => h⟩
    | cons c cursor =>
      rw [broughtLoop, parseLoop]
      cases tbCodecNext (c :: cursor) with
      | none => exact ⟨fun _ => hstop, fun _ => h⟩
      | some next =>
        obtain ⟨type, body, cursor⟩ := next
        dsimp only
        by_cases hsum : type = tbRecordSummary
        · rw [if_pos hsum, if_pos hsum]
          cases tbCodecSummary body with
          | none => exact ⟨fun _ => hstop, fun _ => h⟩
          | some summary => exact ih _ _ _ _ (hsummary _ _ _ _ _ _ h)
        rw [if_neg hsum, if_neg hsum]
        cases tbCodecChat body with
        | none => exact ⟨fun _ => hstop, fun _ => h⟩
        | some record =>
          dsimp only
          by_cases htype : type = tbRecordChat
          swap
          · rw [if_pos htype, if_neg fun hgood => htype hgood.1]
            exact ⟨fun _ => hstop, fun _ => h⟩
          rw [if_neg (not_not.mpr htype)]
          by_cases hid : (tbCopyId [] tbTelegramIdSize record.id true).1 = true
          · rw [if_pos (And.intro htype hid), append_cons]
            by_cases hstopped : chats.tail = .full
            · rw [if_pos hstopped]
              exact ⟨fun hclean => (ih _ _ _ _ (hskip _ _ [record] hstopped h)).1
                fun other hother => hclean other (mem_cons_of_mem _ hother),
                (ih _ _ _ _ h).2⟩
            rw [if_neg hstopped]
            refine ⟨fun hclean => ?_, fun hstopped' => absurd hstopped' hstopped⟩
            obtain ⟨chats', hadd⟩ := append_some config (env.malloc index) chats hid
            rw [hadd]
            exact (ih _ _ _ _ (happend _ _ _ _ _ (hclean record mem_cons_self) hstopped hadd h)).1
              fun other hother => hclean other (mem_cons_of_mem _ hother)
          · rw [if_neg fun hgood : type = tbRecordChat ∧ _ => hid hgood.2, append_nil]
            by_cases hstopped : chats.tail = .full
            · rw [if_pos hstopped]
              exact ⟨fun _ => (ih _ _ _ _ h).2 hstopped, (ih _ _ _ _ h).2⟩
            rw [if_neg hstopped]
            cases hadd : chats.append config (env.malloc index) record with
            | none => exact ⟨fun _ => h, fun _ => h⟩
            | some chats' =>
              rcases append_cases hadd with ⟨-, rfl⟩ | ⟨hid', -⟩
              · have hrest := (ih (index + 1) cursor _ _ (hfull _ _ h)).2 rfl
                exact ⟨fun _ => hrest, fun _ => hrest⟩
              · exact absurd hid' hid

theorem Contents.parse (h : Contents config chats) {payload : List UInt8}
    (hclean : ∀ record ∈ brought payload, ∀ field, (0 : UInt8) ∉ record.string field) :
    Contents config (chats.parse config env payload).1 :=
  @parse_induct config env chats [] (fun chats _ => Contents config chats)
    (fun _ _ _ _ _ _ h => ⟨h.room, h.ids, h.clean, h.used, h.within⟩) (fun _ _ _ _ h => h)
    (fun _ _ h => ⟨h.room, h.ids, h.clean, h.used, h.within⟩)
    (fun _ _ _ _ _ hclean _ happend h => h.append hclean happend) payload h hclean

theorem Segment.parse (h : Segment config chats records) {payload : List UInt8}
    (hclean : ∀ record ∈ brought payload, ∀ field, (0 : UInt8) ∉ record.string field) :
    Segment config (chats.parse config env payload).1 (records ++ brought payload) := by
  refine parse_induct (fun _ _ _ _ _ _ h => h) (fun _ _ more hfull h => h.skip hfull more) ?_
    (fun _ _ _ _ _ _ hfull happend h => h.append hfull happend) payload h hclean
  rintro chats records ⟨shown, hbegins, hshown, -⟩
  exact ⟨shown, hbegins, hshown, fun hne => absurd rfl hne⟩

/-! ### The calls -/

/-- Two lists with the same chats, of which the second goes on only where the first does. -/
structure Still (chats chats' : TbChats) : Prop where
  items : chats'.items = chats.items
  used : chats'.used = chats.used
  stopped : chats.tail = .full → chats'.tail = .full

theorem Still.trans {chats'' : TbChats} (h : Still chats chats') (h' : Still chats' chats'') :
    Still chats chats'' :=
  ⟨h'.items.trans h.items, h'.used.trans h.used, fun hfull => h'.stopped (h.stopped hfull)⟩

theorem Contents.of_eq (h : Contents config chats)
    (hitems : chats'.items = chats.items) (hused : chats'.used = chats.used) :
    Contents config chats' := by
  refine ⟨?_, ?_, ?_, ?_, hused.trans_le h.within⟩ <;> rw [hitems]
  · exact h.room
  · exact h.ids
  · exact h.clean
  · exact hused.trans h.used

theorem Segment.still (h : Segment config chats records)
    (hstill : Still chats chats') : Segment config chats' records := by
  obtain ⟨shown, hbegins, hshown, hwhole⟩ := h
  refine ⟨shown, hbegins, ?_, fun hne => hwhole fun hfull => hne (hstill.stopped hfull)⟩
  rw [hstill.items]
  exact hshown

theorem Segment.of_nil (hitems : chats.items = []) : Segment config chats [] := by
  refine ⟨[], nil_prefix, ?_, fun _ => rfl⟩
  rw [hitems]
  exact .nil

theorem still_request (env : Env) (load : TbChatsLoad) : Still chats (chats.request env load) := by
  unfold request
  dsimp only
  split_ifs <;> exact ⟨rfl, rfl, id⟩

theorem still_schedule : Still chats (chats.schedule config env) := by
  unfold schedule
  split_ifs <;> exact ⟨rfl, rfl, id⟩

theorem still_loadMore : Still chats (chats.loadMore env) := by
  unfold loadMore
  split_ifs
  · exact ⟨rfl, rfl, id⟩
  · split
    · exact still_request _ _
    · exact still_request _ _
    · exact still_request _ _
    · exact ⟨rfl, rfl, id⟩
    · exact ⟨rfl, rfl, id⟩

theorem still_refresh : Still chats (chats.refresh env) := by
  unfold refresh
  split_ifs
  · exact ⟨rfl, rfl, id⟩
  · exact still_request _ _
  · exact still_request _ _

theorem still_setActive (active : Bool) : Still chats (chats.setActive config env active) := by
  have hset : Still chats { chats with active } := ⟨rfl, rfl, id⟩
  unfold setActive
  dsimp only
  split_ifs
  · exact ⟨rfl, rfl, id⟩
  · exact hset.trans still_refresh
  · exact hset.trans still_schedule
  · exact ⟨rfl, rfl, id⟩

theorem still_timerRan : Still chats (chats.timerRan config env) := by
  have hspent : Still chats { chats with refreshDue := 0, timer := none } := ⟨rfl, rfl, id⟩
  unfold timerRan
  dsimp only
  split_ifs
  · exact hspent.trans still_schedule
  · exact hspent.trans still_refresh
  · exact hspent

theorem still_finish (flags : ℕ) : Still chats (chats.finish config env flags) := by
  refine Still.trans ?_ still_schedule
  exact ⟨rfl, rfl, fun hfull => by rw [if_neg (not_not.mpr hfull), hfull]⟩

theorem fail_spec (error : ℤ) (retryAfter : ℕ) :
    (chats.fail config env error retryAfter).items = chats.items ∧
      (chats.fail config env error retryAfter).used = chats.used ∧
      ((chats.load = .more → chats.tail = .full →
          error = tbResultCursorLost ∧ chats.resynced = false) →
        Still chats (chats.fail config env error retryAfter)) := by
  have hidle : Still chats { chats with pending := 0, load := .idle, resynced := true } :=
    ⟨rfl, rfl, id⟩
  unfold fail
  dsimp only
  split_ifs with hlost hmore
  · have hstill := hidle.trans (still_request env .refresh)
    exact ⟨hstill.items, hstill.used, fun _ => hstill⟩
  · refine ⟨still_schedule.items, still_schedule.used, fun hkeeps =>
      ⟨still_schedule.items, still_schedule.used, fun hfull => ?_⟩⟩
    obtain ⟨herror, hresynced⟩ := hkeeps hmore hfull
    exact absurd ⟨herror, by simp [hresynced]⟩ hlost
  · refine ⟨still_schedule.items, still_schedule.used, fun _ =>
      ⟨still_schedule.items, still_schedule.used, fun hfull => still_schedule.stopped ?_⟩⟩
    exact hfull

theorem still_abandon (sequence : ℕ) (response : TbResponse) :
    Still chats (chats.abandon sequence response) := ⟨rfl, rfl, id⟩

/-- **What a call back does.** It is ignored, or it ends the request with an error, or its records are
read into the list that the first of them begins. -/
theorem completed_eq (chats : TbChats) (sequence : ℕ) (response : TbResponse) (flags : ℕ) :
    chats.completed config env sequence response flags =
      if chats.Hears sequence response then
        if Carries response then
          let chunk := (if response.index = 0 then chats.begun config flags else chats).parse config env
            response.payload
          if chunk.2 = false then
            (chunk.1.abandon sequence response).fail config env tbResultProtocolError 0
          else if response.final then chunk.1.finish config env flags
          else chunk.1
        else
          (chats.abandon sequence response).fail config env (tbErrorFromResponse response)
            response.retryAfter
      else chats := by
  unfold completed
  by_cases hhears : chats.Hears sequence response
  swap
  · rw [if_neg hhears, if_pos ((not_and_or.mp hhears).imp_right not_not.mp)]
  rw [if_pos hhears, if_neg fun hignored => hignored.elim (fun hne => hne hhears.1) hhears.2]
  by_cases hcarries : Carries response
  swap
  · rw [if_neg hcarries, if_pos (not_and_or.mp hcarries)]
  rw [if_pos hcarries, if_neg fun hfails => hfails.elim (fun hne => hne hcarries.1) fun hne => hne hcarries.2]
  dsimp only
  generalize parse config env _ response.payload = chunk
  obtain ⟨chunk, ok⟩ := chunk
  cases ok <;> cases hfinal : response.final <;> simp

theorem begun_frame (config : TbChatsConfig) (chats : TbChats) (flags : ℕ) :
    let start := if chats.load ≠ .more then chats.clear else chats
    (chats.begun config flags).items = start.items ∧ (chats.begun config flags).used = start.used := by
  unfold TbChats.begun
  dsimp only
  split_ifs <;> exact ⟨rfl, rfl⟩

theorem contents_begun (h : Contents config chats) (flags : ℕ) :
    Contents config (chats.begun config flags) := by
  obtain ⟨hitems, hused⟩ := begun_frame config chats flags
  split_ifs at hitems hused
  · exact h.clear.of_eq hitems hused
  · exact h.of_eq hitems hused

theorem segment_begun (h : Segment config chats records) (flags : ℕ)
    (hkeeps : chats.load = .more → chats.tail = .full → config.capacity ≤ chats.items.length) :
    Segment config (chats.begun config flags) (if chats.load ≠ .more then [] else records) := by
  obtain ⟨hitems, hused⟩ := begun_frame config chats flags
  by_cases hmore : chats.load = .more
  · rw [if_neg (not_not.mpr hmore)] at hitems hused ⊢
    refine h.still ⟨hitems, hused, fun hfull => ?_⟩
    have hroom := Nat.not_lt.mpr (hkeeps hmore hfull)
    simp [TbChats.begun, hmore, hfull, hroom]
  · rw [if_pos hmore] at hitems ⊢
    exact Segment.of_nil hitems

theorem contents_step (h : Contents config chats) (event : Event × Env) (hclean : Clean event.1) :
    Contents config (step config chats event) := by
  have hstill : ∀ {chats'}, Still chats chats' → Contents config chats' :=
    fun hstill => h.of_eq hstill.items hstill.used
  have hclose : Contents config chats.close := h.clear.of_eq rfl rfl
  obtain ⟨event, env⟩ := event
  have hopen : ∀ account list, Contents config (chats.open env account list) := by
    intro account list
    have hopened : Contents config { chats.close with
        account := strncpy tbAccountIdSize account
        list := if list = tbListArchive then tbListArchive else tbListMain
        active := true } := hclose.of_eq rfl rfl
    exact hopened.of_eq (still_request _ .first).items (still_request _ .first).used
  cases event with
  | «open» account list => exact hopen account list
  | setList list => exact hopen chats.account list
  | close => exact hclose
  | loadMore => exact hstill still_loadMore
  | refresh => exact hstill still_refresh
  | retry =>
    change Contents config (chats.retry env)
    unfold retry
    split_ifs
    · exact h
    · exact hstill still_loadMore
    · exact hstill still_refresh
  | setActive active => exact hstill (still_setActive active)
  | timer => exact hstill still_timerRan
  | response sequence response flags =>
    change Contents config (chats.completed config env sequence response flags)
    rw [completed_eq]
    have hbegun : Contents config (if response.index = 0 then chats.begun config flags else chats) := by
      split_ifs
      · exact contents_begun h flags
      · exact h
    have hchunk : Contents config (parse config env _ response.payload).1 := 
      hbegun.parse fun record hrecord field => hclean record hrecord field (by cases field <;> decide)
    dsimp only
    generalize parse config env _ response.payload = chunk at hchunk ⊢
    split_ifs
    · exact hchunk.of_eq (fail_spec _ _).1 (fail_spec _ _).2.1
    · exact hchunk.of_eq (still_finish flags).items (still_finish flags).used
    · exact hchunk
    · exact h.of_eq (fail_spec _ _).1 (fail_spec _ _).2.1
    · exact h

/-- **A call keeps the list without a gap**, unless it resumes a list that has stopped. -/
theorem segment_step (h : Segment config chats records) (event : Event × Env) (hclean : Clean event.1)
    (hkeeps : Keeps config chats event) :
    Segment config (step config chats event) (received chats records event.1) := by
  obtain ⟨event, env⟩ := event
  have hopen : ∀ account list, Segment config (chats.open env account list) [] :=
    fun account list => Segment.of_nil (still_request _ .first).items
  cases event with
  | «open» account list => exact hopen account list
  | setList list => exact hopen chats.account list
  | close => exact Segment.of_nil rfl
  | loadMore => exact h.still still_loadMore
  | refresh => exact h.still still_refresh
  | retry =>
    change Segment config (chats.retry env) records
    unfold retry
    split_ifs
    · exact h
    · exact h.still still_loadMore
    · exact h.still still_refresh
  | setActive active => exact h.still (still_setActive active)
  | timer => exact h.still still_timerRan
  | response sequence response flags =>
    change Segment config (chats.completed config env sequence response flags)
      (if chats.Hears sequence response ∧ Carries response then
        (if response.index = 0 ∧ chats.load ≠ .more then [] else records) ++ brought response.payload
      else records)
    change chats.Hears sequence response → chats.load = .more → _ at hkeeps
    rw [completed_eq]
    by_cases hhears : chats.Hears sequence response
    swap
    · rw [if_neg hhears, if_neg fun hboth => hhears hboth.1]
      exact h
    have hkeeps := hkeeps hhears
    rw [if_pos hhears]
    by_cases hcarries : Carries response
    swap
    · rw [if_neg hcarries, if_neg fun hboth => hcarries hboth.2]
      refine h.still ((still_abandon sequence response).trans ((fail_spec _ _).2.2 fun hmore hfull => ?_))
      have hlost := hkeeps hmore
      rw [if_neg hcarries] at hlost
      exact hlost hfull
    rw [if_pos hcarries, if_pos (And.intro hhears hcarries)]
    rw [if_pos hcarries] at hkeeps
    have hbegun : Segment config (if response.index = 0 then chats.begun config flags else chats)
        (if response.index = 0 ∧ chats.load ≠ .more then [] else records) := by
      by_cases hfirst : response.index = 0
      · simp only [hfirst, if_true, true_and]
        exact segment_begun h flags fun hmore => (hkeeps hmore).1 hfirst
      · rw [if_neg hfirst, if_neg fun hboth => hfirst hboth.1]
        exact h
    have hchunk : Segment config (parse config env _ response.payload).1 _ :=
      hbegun.parse fun record hrecord field => hclean record hrecord field (by cases field <;> decide)
    have hstays : ((if response.index = 0 then chats.begun config flags else chats).parse config env
        response.payload).1.load = chats.load := by
      refine (alike_parse response.payload).load.trans ?_
      split_ifs
      · exact (alike_begun flags).load
      · rfl
    dsimp only at hkeeps ⊢
    generalize parse config env _ response.payload = chunk at hchunk hkeeps hstays ⊢
    generalize (if response.index = 0 ∧ chats.load ≠ .more then [] else records) = start at hchunk ⊢
    split_ifs with hread
    · refine hchunk.still (((still_abandon sequence response).trans ?_))
      refine (fail_spec _ _).2.2 fun hmore hfull => ?_
      have hok := (hkeeps (hstays.symm.trans hmore)).2 hfull
      exact absurd (hread.symm.trans hok) (by decide)
    · exact hchunk.still (still_finish flags)
    · exact hchunk

/-! ### Runs -/

/-- **What the list holds, in every run.** The account holds after every call; and when no call resumes
a list that has stopped, the list is the records received up to where it has stopped, if it has. -/
theorem contents_of_run {events : List (Event × Env)} {s : TbChats × List TbChatRecord}
    (hrun : Run (Within (fun _ event => Clean event.1) fun s event s' => observe config s event = s')
      ({}, []) events s) :
    Contents config s.1 ∧
      (Run (Within (fun s event => Clean event.1 ∧ Keeps config s.1 event) fun s event s' =>
          observe config s event = s') ({}, []) events s →
        Segment config s.1 s.2) := by
  constructor
  · refine hrun.invariant (fun s => Contents config s.1) ?_ ?_
    · rintro s event _ h ⟨hclean, rfl⟩
      exact contents_step h event hclean
    · exact ⟨Nat.zero_le _, List.nodup_nil, nofun, rfl, Nat.zero_le _⟩
  · intro hrun
    refine hrun.invariant (fun s => Segment config s.1 s.2) ?_ (Segment.of_nil rfl)
    rintro s event _ h ⟨⟨hclean, hkeeps⟩, rfl⟩
    exact segment_step h event hclean hkeeps

def chatRecord (id : UInt8) (title : List UInt8) : List UInt8 :=
  [3, (20 + title.length).toUInt8, 0, 1, id, title.length.toUInt8] ++ title ++ List.replicate 17 0

def narrow : TbChatsConfig where
  capacity := 8
  textLimit := 8
  textBudget := 4
  refreshInterval := 0
  staleAfter := 0

attribute [local instance] HistoryView.neZero_one HistoryView.neZero_two HistoryView.neZero_three in
/-- A page, and one that follows it and fails after a title that does not fit; asked for again, it begins
with another chat. -/
def gap : List (Event × Env) :=
  let env (sequence : ℕ) : Env := ⟨{ sequence }, fun _ => 0, fun _ _ => true⟩
  let chunk (payload : List UInt8) (final : Bool) : TbResponse :=
    { outcome := .response, result := tbResultOk, payload, final }
  [(.open [0x61] tbListMain, env 1),
    (.response 1 (chunk (chatRecord 0x31 [0x61]) true) tbFlagHasMore, env 0),
    (.loadMore, env 2),
    (.response 2 (chunk (chatRecord 0x32 [0x62, 0x62, 0x62]) false) 0, env 0),
    (.response 2 { outcome := .timeout } 0, env 0),
    (.loadMore, env 3),
    (.response 3 (chunk (chatRecord 0x33 [0x63]) true) 0, env 0)]

theorem clean_gap : ∀ event ∈ gap, Clean event.1 := by
  simp only [gap, forall_mem_cons]
  refine ⟨trivial, ?_, trivial, ?_, ?_, trivial, ?_, nofun⟩ <;> (dsimp only [Clean]; decide +kernel)

/-- The first page is shown. -/
theorem contents_first : Segment narrow ((gap.take 2).foldl (observe narrow) ({}, [])).1
    ((gap.take 2).foldl (observe narrow) ({}, [])).2 := by
  refine (contents_of_run (run_within _ _ fun event hevent _ => clean_gap event ?_)).2 ?_
  · exact List.mem_of_mem_take hevent
  · have hclean := clean_gap
    simp only [gap, List.forall_mem_cons] at hclean
    refine ((Run.nil _).snoc ⟨⟨hclean.1, trivial⟩, rfl⟩).snoc ⟨⟨hclean.2.1, ?_⟩, rfl⟩
    exact fun _ hmore => absurd hmore (by decide)

/-- The second chat is not in the list, and the list does not say that it has stopped. -/
theorem gap_behind : ¬ ∀ {config : TbChatsConfig} {events : List (Event × Env)}
    {s : TbChats × List TbChatRecord},
    Run (Within (fun _ event => Clean event.1) fun s event s' => observe config s event = s')
      ({}, []) events s → Segment config s.1 s.2 := by
  intro h
  obtain ⟨shown, -, hshown, hwhole⟩ :=
    @h narrow _ _ (run_within (observe narrow) _ fun event hevent _ => clean_gap event hevent)
  have hlength := hshown.length_eq
  rw [hwhole (by decide +kernel)] at hlength
  exact absurd hlength (by decide +kernel)

end Watch.ChatsView
