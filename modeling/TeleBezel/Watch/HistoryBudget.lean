import Mathlib.Algebra.Order.BigOperators.Group.List
import Mathlib.Data.Nat.Digits.Defs
import TeleBezel.Watch.HistoryView

/-!
# The budget of the history view

A string adds its bytes and its terminator to the budget when it is copied; it gives back what
`strlen` tells when it is freed. The two are the same for a string without a zero byte, and then the
budget is the sum over the strings of the messages, whatever happens to the messages.
-/

open List

namespace Watch.HistoryView

/-! ### The numbers of identifiers -/

def Spells (id : CString) (key : ℤ) : Prop :=
  id ≠ [] ∧ (∀ c ∈ id, 0x30 ≤ c ∧ c ≤ 0x39) ∧
    key = (Nat.ofDigits 10 (id.reverse.map fun c => c.toNat - 0x30) : ℕ)

theorem parseDigits_eq_some {digits : List UInt8} {result : ℕ} {key : ℤ}
    (h : parseDigits false digits result = some key) :
    (∀ c ∈ digits, 0x30 ≤ c ∧ c ≤ 0x39) ∧
      key = (Nat.ofDigits 10 (digits.reverse.map fun c => c.toNat - 0x30) +
        10 ^ digits.length * result : ℕ) := by
  induction digits generalizing result with
  | nil => simpa [parseDigits] using h.symm
  | cons c digits ih =>
    simp only [parseDigits] at h
    split_ifs at h with hdigit hrange hleast
    · simp at hleast
    · obtain ⟨hall, hkey⟩ := ih h
      rw [not_or, UInt8.not_lt, UInt8.not_lt] at hdigit
      refine ⟨?_, ?_⟩
      · intro d hd
        rcases mem_cons.mp hd with rfl | hd
        · exact hdigit
        · exact hall d hd
      · rw [hkey]
        simp only [reverse_cons, map_append, map_cons, map_nil,
          Nat.ofDigits_append, Nat.ofDigits_singleton, length_map, length_reverse,
          length_cons]
        push_cast
        ring

theorem spells_of_tbParseId {id : CString} {key : ℤ} (hsign : id.getD 0 0 ≠ 0x2D)
    (h : tbParseId id = some key) : Spells id key := by
  unfold tbParseId at h
  split at h
  · cases h
  · simp at hsign
  · obtain ⟨hall, hkey⟩ := parseDigits_eq_some h
    refine ⟨by assumption, hall, ?_⟩
    simpa using hkey

/-! ### What a string takes -/

/-- A message whose strings have no zero byte, and whose key is the number of its identifier. -/
structure Sane (item : TbMessage) : Prop where
  clean : ∀ field value, item.strings field = some value → (0 : UInt8) ∉ value
  parsed : tbParseId item.id = some item.key
  spells : Spells item.id item.key

def cost (items : List TbMessage) : ℕ := (items.map TbMessage.taken).sum

@[simp] theorem cost_nil : cost [] = 0 := rfl

@[simp] theorem cost_cons (item : TbMessage) (items : List TbMessage) :
    cost (item :: items) = item.taken + cost items := by
  simp [cost]

@[simp] theorem cost_append (items items' : List TbMessage) :
    cost (items ++ items') = cost items + cost items' := by
  simp [cost]

theorem cost_perm {items items' : List TbMessage} (h : items.Perm items') : cost items = cost items' :=
  (h.map _).sum_eq

theorem strlen_of_clean {value : List UInt8} (h : (0 : UInt8) ∉ value) : strlen value = value.length := by
  unfold strlen cString
  rw [takeWhile_eq_self_iff.mpr]
  intro c hc
  simp only [decide_eq_true_eq]
  rintro rfl
  exact h hc

theorem tbBudgetFree_of_clean {used : ℕ} {value : Option (List UInt8)}
    (hclean : ∀ bytes, value = some bytes → (0 : UInt8) ∉ bytes) :
    tbBudgetFree used value = used - taken value := by
  cases value with
  | none => rfl
  | some bytes =>
    simp only [tbBudgetFree, taken, strlen_of_clean (hclean bytes rfl)]
    split_ifs <;> omega

theorem foldl_tbBudgetFree {φ : Type} {strings : φ → Option (List UInt8)}
    (h : ∀ field value, strings field = some value → (0 : UInt8) ∉ value) (fields : List φ) (used : ℕ) :
    fields.foldl (fun used field => tbBudgetFree used (strings field)) used =
      used - (fields.map fun field => taken (strings field)).sum := by
  induction fields generalizing used with
  | nil => rfl
  | cons field fields ih =>
    rw [foldl_cons, ih, tbBudgetFree_of_clean (h field), map_cons, sum_cons]
    omega

theorem freeMessage_of_sane {item : TbMessage} (h : Sane item) (used : ℕ) :
    freeMessage used item = used - item.taken :=
  foldl_tbBudgetFree h.clean _ used

theorem foldl_freeMessage {items : List TbMessage} (h : ∀ item ∈ items, Sane item) (used : ℕ) :
    items.foldl freeMessage used = used - cost items := by
  induction items generalizing used with
  | nil => rfl
  | cons item items ih =>
    rw [foldl_cons, ih fun other hother => h other (mem_cons_of_mem _ hother),
      freeMessage_of_sane (h item mem_cons_self), cost_cons]
    omega

/-! ### The account of the messages -/

structure TbMessages.Accounted (messages : TbMessages) : Prop where
  items : ∀ item ∈ messages.items, Sane item
  staging : ∀ item ∈ messages.staging, Sane item
  used : messages.used = cost messages.items + cost messages.staging

namespace TbMessages

variable {config : TbHistoryConfig} {messages : TbMessages}

theorem Accounted.clearItems (h : Accounted messages) : Accounted messages.clearItems := by
  refine ⟨nofun, h.staging, ?_⟩
  unfold TbMessages.clearItems
  dsimp only
  rw [foldl_freeMessage h.items, h.used, cost_nil]
  omega

theorem Accounted.clearStaging_used (h : Accounted messages) :
    messages.clearStaging.used = cost messages.items := by
  unfold TbMessages.clearStaging
  dsimp only
  rw [foldl_freeMessage h.staging, h.used]
  omega

theorem Accounted.clearStaging (h : Accounted messages) : Accounted messages.clearStaging := by
  refine ⟨h.items, nofun, ?_⟩
  rw [h.clearStaging_used]
  rfl

end TbMessages

/-! ### A chunk of a page -/

def TbMessageRecord.NulFree (record : TbMessageRecord) : Prop :=
  ∀ span ∈ [record.sender, record.signature, record.forward, record.extra, record.text,
    record.replyId, record.replySender, record.replyText], (0 : UInt8) ∉ span

instance (record : TbMessageRecord) : Decidable record.NulFree :=
  inferInstanceAs (Decidable (∀ span ∈ _, _))

/-- The messages of a payload, up to what is not one. -/
def records : ℕ → TbCursor → List TbMessageRecord
  | 0, _ => []
  | fuel + 1, cursor =>
    match tbCodecNext cursor with
    | none => []
    | some (type, body, cursor) =>
      match tbCodecMessage body with
      | none => []
      | some record => if type ≠ tbRecordMessage then [] else record :: records fuel cursor

@[inherit_doc records] def recordsOf (payload : List UInt8) : List TbMessageRecord :=
  records payload.length payload

theorem not_mem_tbBudgetCopy {value bytes : List UInt8} {maxLength : ℕ} {allocated : Bool}
    (h : tbBudgetCopy value maxLength allocated = some bytes) (hclean : (0 : UInt8) ∉ value) :
    (0 : UInt8) ∉ bytes := by
  unfold tbBudgetCopy at h
  dsimp only at h
  split_ifs at h
  cases h
  exact fun hmem => hclean (mem_of_mem_take hmem)

theorem not_mem_quote {record : TbMessageRecord} (hsender : (0 : UInt8) ∉ record.replySender)
    (htext : (0 : UInt8) ∉ record.replyText) : (0 : UInt8) ∉ quote record := by
  unfold quote
  rw [mem_append, not_or]
  refine ⟨?_, fun hmem => htext (mem_of_mem_take hmem)⟩
  split_ifs
  · rw [mem_append, not_or]
    exact ⟨fun hmem => hsender (mem_of_mem_take hmem), by decide⟩
  · exact fun hmem => hsender (mem_of_mem_take hmem)

theorem tbCopyId_value {out : CString} {capacity : ℕ} {value id : List UInt8} {negative : Bool}
    (h : tbCopyId out capacity value negative = (true, id)) : id = value := by
  unfold tbCopyId at h
  dsimp only at h
  split_ifs at h <;> simp_all

theorem tbCopyId_eq {out : CString} {capacity : ℕ} {value id : List UInt8}
    (h : tbCopyId out capacity value false = (true, id)) :
    id = value ∧ value.getD 0 0 ≠ 0x2D := by
  unfold tbCopyId at h
  dsimp only at h
  split_ifs at h with hlength hsign hzero hdigit hparsed
  all_goals simp_all

theorem sane_messageOf {config : TbHistoryConfig} {malloc : StringField → Bool}
    {record : TbMessageRecord} (h : record.NulFree) {out id : CString} {capacity : ℕ} {key : ℤ}
    (hid : tbCopyId out capacity record.id false = (true, id)) (hkey : tbParseId id = some key) :
    Sane (messageOf config malloc record id key) := by
  obtain ⟨rfl, hsign⟩ := tbCopyId_eq hid
  refine ⟨fun field value hvalue => ?_, hkey, spells_of_tbParseId hsign hkey⟩
  simp only [TbMessageRecord.NulFree, forall_mem_cons] at h
  obtain ⟨hsender, hsignature, hforward, hextra, htext, hreplyId, hreplySender, hreplyText, -⟩ := h
  simp only [messageOf] at hvalue
  cases field with
  | sender => exact not_mem_tbBudgetCopy hvalue hsender
  | signature => exact not_mem_tbBudgetCopy hvalue hsignature
  | forward => exact not_mem_tbBudgetCopy hvalue hforward
  | extra => exact not_mem_tbBudgetCopy hvalue hextra
  | text => exact not_mem_tbBudgetCopy hvalue htext
  | reply =>
    simp only [copies] at hvalue
    split_ifs at hvalue
    exact not_mem_tbBudgetCopy hvalue (not_mem_quote hreplySender hreplyText)
  | replyId =>
    simp only [copies] at hvalue
    split_ifs at hvalue
    exact not_mem_tbBudgetCopy hvalue hreplyId
  | replySender =>
    simp only [copies] at hvalue
    split_ifs at hvalue
    exact not_mem_tbBudgetCopy hvalue hreplySender

namespace TbMessages

variable {config : TbHistoryConfig} {messages messages' : TbMessages}

/-- **Inversion of `stage`.** A record finds no place, or an allocation fails, or it is staged. -/
theorem stage_cases {malloc : StringField → Bool} {record : TbMessageRecord}
    (h : messages.stage config malloc record = some messages') :
    (config.pageLimit ≤ messages.staging.length ∧ messages' = messages) ∨
      (messages.staging.length < config.pageLimit ∧ ∃ id key,
        tbCopyId [] tbTelegramIdSize record.id false = (true, id) ∧ tbParseId id = some key ∧
          (messages' =
              { messages with
                used := freeMessage (messages.used + (messageOf config malloc record id key).taken)
                  (messageOf config malloc record id key)
                stagingInvalid := true } ∨
            messages' =
              { messages with
                staging := messages.staging ++ [messageOf config malloc record id key]
                used := messages.used + (messageOf config malloc record id key).taken })) := by
  unfold stage at h
  split_ifs at h with hfull
  · exact .inl ⟨hfull, (Option.some.inj h).symm⟩
  · refine .inr ⟨not_le.mp hfull, ?_⟩
    rcases hcopied : tbCopyId [] tbTelegramIdSize record.id false with ⟨copied, id⟩
    rw [hcopied] at h
    dsimp only at h
    split at h
    · rename_i key hkey
      refine ⟨id, key, rfl, hkey, ?_⟩
      split_ifs at h
      · exact .inl (Option.some.inj h).symm
      · exact .inr (Option.some.inj h).symm
    · cases h

def stageAll (config : TbHistoryConfig) (malloc : ℕ → StringField → Bool) :
    ℕ → List TbMessageRecord → TbMessages → TbMessages
  | _, [], messages => messages
  | index, record :: records, messages =>
    match messages.stage config (malloc index) record with
    | none => messages
    | some messages => stageAll config malloc (index + 1) records messages

theorem parse_eq_stageAll (malloc : ℕ → StringField → Bool) (messages : TbMessages)
    (payload : List UInt8) : (messages.parse config malloc payload).1 =
      messages.stageAll config malloc 0 (recordsOf payload) := by
  unfold parse recordsOf
  generalize payload.length = fuel
  generalize 0 = index
  induction fuel generalizing payload index messages with
  | zero => cases payload <;> rfl
  | succ fuel ih =>
    cases payload with
    | nil => rfl
    | cons c payload =>
      cases hnext : tbCodecNext (c :: payload) with
      | none => simp only [parseLoop, records, hnext, stageAll]
      | some next =>
        obtain ⟨type, body, cursor⟩ := next
        cases hrecord : tbCodecMessage body with
        | none => simp only [parseLoop, records, hnext, hrecord, stageAll]
        | some record =>
          simp only [parseLoop, records, hnext, hrecord]
          split_ifs
          · rfl
          · simp only [stageAll]
            cases messages.stage config (malloc index) record with
            | none => rfl
            | some messages => exact ih _ _ _

theorem parse_induction (prop : TbMessages → Prop) (payload : List UInt8)
    (hstep : ∀ record ∈ recordsOf payload, ∀ malloc messages messages', prop messages →
      messages.stage config malloc record = some messages' → prop messages')
    (malloc : ℕ → StringField → Bool) (h : prop messages) :
    prop (messages.parse config malloc payload).1 := by
  rw [parse_eq_stageAll]
  generalize recordsOf payload = records at hstep
  generalize 0 = index
  induction records generalizing messages index with
  | nil => exact h
  | cons record records ih =>
    rw [forall_mem_cons] at hstep
    simp only [stageAll]
    split
    · exact h
    · rename_i messages' hstage
      exact ih (hstep.1 _ _ _ h hstage) hstep.2 _

theorem Accounted.stage (h : Accounted messages) {malloc : StringField → Bool}
    {record : TbMessageRecord} (hclean : record.NulFree)
    (hstage : messages.stage config malloc record = some messages') : Accounted messages' := by
  rcases stage_cases hstage with ⟨-, rfl⟩ | ⟨-, id, key, hid, hkey, rfl | rfl⟩
  · exact h
  · refine ⟨h.items, h.staging, ?_⟩
    dsimp only
    rw [freeMessage_of_sane (sane_messageOf hclean hid hkey), h.used]
    omega
  · refine ⟨h.items, ?_, ?_⟩
    · intro item hitem
      rcases mem_append.mp hitem with hold | hnew
      · exact h.staging item hold
      · rw [mem_singleton.mp hnew]
        exact sane_messageOf hclean hid hkey
    · dsimp only
      rw [h.used, cost_append, cost_cons, cost_nil]
      omega

theorem Accounted.parse (h : Accounted messages) {payload : List UInt8}
    (hclean : ∀ record ∈ recordsOf payload, record.NulFree) (malloc : ℕ → StringField → Bool) :
    Accounted (messages.parse config malloc payload).1 :=
  parse_induction Accounted payload (fun record hrecord _ _ _ haccounted hstage =>
    haccounted.stage (hclean record hrecord) hstage) malloc h

theorem items_parse (malloc : ℕ → StringField → Bool) (payload : List UInt8) :
    (messages.parse config malloc payload).1.items = messages.items := by
  refine parse_induction (·.items = messages.items) payload ?_ malloc rfl
  intro record _ malloc before after hbefore hstage
  rcases stage_cases hstage with ⟨-, rfl⟩ | ⟨-, id, key, -, -, rfl | rfl⟩
  all_goals exact hbefore

/-! ### The end of a page -/

theorem insertByKey_perm (sorted : List TbMessage) (item : TbMessage) :
    (insertByKey sorted item).Perm (item :: sorted) := by
  refine perm_middle.trans ?_
  rw [rdropWhile_append_rtakeWhile]

theorem sort_perm (sorted staging : List TbMessage) :
    (staging.foldl insertByKey sorted).Perm (sorted ++ staging) := by
  induction staging generalizing sorted with
  | nil => simp
  | cons item staging ih =>
    calc (item :: staging).foldl insertByKey sorted
      _ = staging.foldl insertByKey (insertByKey sorted item) := rfl
      _ |>.Perm (insertByKey sorted item ++ staging) := ih _
      _ |>.Perm (item :: sorted ++ staging) := (insertByKey_perm sorted item).append_right staging
      _ |>.Perm (sorted ++ item :: staging) := perm_middle.symm

theorem Accounted.sortStaging (h : Accounted messages) : Accounted messages.sortStaging := by
  have hperm : (messages.staging.foldl insertByKey []).Perm messages.staging := by
    simpa using sort_perm [] messages.staging
  refine ⟨h.items, fun item hitem => h.staging item (hperm.mem_iff.mp hitem), ?_⟩
  unfold TbMessages.sortStaging
  rw [cost_perm hperm, h.used]

theorem Accounted.evictLoop (h : Accounted messages) (fuel : ℕ) :
    Accounted (messages.evictLoop config fuel) := by
  induction fuel generalizing messages with
  | zero => exact h
  | succ fuel ih =>
    simp only [TbMessages.evictLoop]
    split
    · exact h
    · rename_i newest hnewest
      split_ifs
      · obtain ⟨older, holder⟩ := List.getLast?_eq_some_iff.mp hnewest
        have hitems := h.items
        have hused := h.used
        rw [holder] at hitems hused ⊢
        refine ih ⟨fun item hitem => hitems item ?_, h.staging, ?_⟩
        · exact mem_append_left _ (by simpa using hitem)
        · rw [freeMessage_of_sane (hitems newest (by simp)), hused]
          simp only [cost_append, cost_cons, cost_nil, dropLast_concat]
          omega
      · exact h

theorem accounted_appendLoop {staging items : List TbMessage} {used : ℕ}
    (hitems : ∀ item ∈ items, Sane item) (hstaging : ∀ item ∈ staging, Sane item)
    (hused : used = cost items + cost staging) :
    (∀ item ∈ (appendLoop config staging items used).1, Sane item) ∧
      (appendLoop config staging items used).2 = cost (appendLoop config staging items used).1 := by
  induction staging generalizing items used with
  | nil => exact ⟨hitems, hused⟩
  | cons item staging ih =>
    rw [forall_mem_cons] at hstaging
    rw [cost_cons] at hused
    simp only [appendLoop]
    split_ifs
    · refine ih hitems hstaging.2 ?_
      rw [freeMessage_of_sane hstaging.1, hused]
      omega
    · refine ih ?_ hstaging.2 ?_
      · simpa [or_imp, forall_and] using ⟨hitems, hstaging.1⟩
      · rw [hused, cost_append, cost_cons, cost_nil]
        omega

theorem Accounted.appendStaging (h : Accounted messages) : Accounted (messages.appendStaging config) := by
  obtain ⟨hitems, hused⟩ := @accounted_appendLoop config _ _ _ h.items h.staging h.used
  exact ⟨hitems, nofun, hused⟩

theorem accounted_acceptLoop {staging accepted : List TbMessage} {oldest : ℤ} {used rest : ℕ}
    (haccepted : ∀ item ∈ accepted, Sane item) (hstaging : ∀ item ∈ staging, Sane item)
    (hused : used = rest + cost accepted + cost staging) :
    (∀ item ∈ (acceptLoop config oldest staging accepted used).1, Sane item) ∧
      (acceptLoop config oldest staging accepted used).2 =
        rest + cost (acceptLoop config oldest staging accepted used).1 := by
  induction staging generalizing accepted used with
  | nil => exact ⟨haccepted, hused⟩
  | cons item staging ih =>
    rw [forall_mem_cons] at hstaging
    rw [cost_cons] at hused
    simp only [acceptLoop]
    split_ifs
    · refine ih ?_ hstaging.2 ?_
      · simpa [or_imp, forall_and] using ⟨haccepted, hstaging.1⟩
      · rw [hused, cost_append, cost_cons, cost_nil]
        omega
    · refine ih haccepted hstaging.2 ?_
      rw [freeMessage_of_sane hstaging.1, hused]
      omega

theorem cost_take_add_drop (items : List TbMessage) (keep : ℕ) :
    cost (items.take keep) + cost (items.drop keep) = cost items := by
  rw [← cost_append, take_append_drop]

theorem Accounted.prependStaging (h : Accounted messages) :
    Accounted (messages.prependStaging config) := by
  unfold TbMessages.prependStaging
  dsimp only
  obtain ⟨haccepted, hused⟩ := @accounted_acceptLoop config messages.staging []
    ((messages.items.head?.map TbMessage.key).getD int64Max) messages.used (cost messages.items) nofun
    h.staging h.used
  split_ifs with hnone
  · refine ⟨h.items, nofun, ?_⟩
    simpa [hnone] using hused
  · refine ⟨?_, nofun, ?_⟩
    · intro item hitem
      rcases mem_append.mp hitem with hnew | hold
      · exact haccepted item hnew
      · exact h.items item (mem_of_mem_take hold)
    · dsimp only
      rw [foldl_freeMessage fun item hitem => h.items item ?_, cost_perm (reverse_perm _), hused]
      · have hsplit := cost_take_add_drop messages.items (config.capacity - (acceptLoop config
          ((messages.items.head?.map TbMessage.key).getD int64Max) messages.staging []
          messages.used).1.length)
        rw [cost_append, cost_nil]
        omega
      · exact mem_of_mem_drop (mem_reverse.mp hitem)

theorem Accounted.removeFrom (h : Accounted messages) (keep : ℕ) :
    Accounted (messages.removeFrom keep) := by
  refine ⟨fun item hitem => h.items item (mem_of_mem_take hitem), h.staging, ?_⟩
  unfold TbMessages.removeFrom
  dsimp only
  rw [foldl_freeMessage fun item hitem => h.items item (mem_of_mem_drop hitem), h.used,
    ← cost_take_add_drop messages.items keep]
  omega

/-- **Inversion of `merge_newest`.** The items are replaced, or the page is empty, or it does not meet
them or does not fit, or it takes the place of some of them. -/
theorem mergeNewest_cases (config : TbHistoryConfig) (messages : TbMessages) (first : Bool) :
    messages.mergeNewest config first =
        { messages.clearItems.appendStaging config with truncated := false } ∨
      (messages.staging = [] ∧ messages.mergeNewest config first = messages) ∨
      messages.mergeNewest config first = { messages.clearStaging with truncated := true } ∨
      ∃ keep, messages.mergeNewest config first =
        (messages.removeFrom keep).appendStaging config := by
  unfold TbMessages.mergeNewest
  split
  · exact .inl rfl
  · exact .inl rfl
  · split
    · rename_i hnone
      exact .inr (.inl ⟨List.head?_eq_none_iff.mp hnone, rfl⟩)
    · refine .inr (.inr ?_)
      exact (ite_eq_or_eq _ _ _).imp id fun heq => ⟨_, heq⟩

theorem Accounted.mergeNewest (h : Accounted messages) (first : Bool) :
    Accounted (messages.mergeNewest config first) := by
  rcases mergeNewest_cases config messages first with heq | ⟨-, heq⟩ | heq | ⟨keep, heq⟩
  all_goals rw [heq]
  · have happended := @Accounted.appendStaging config _ h.clearItems
    exact ⟨happended.items, happended.staging, happended.used⟩
  · exact h
  · exact ⟨h.clearStaging.items, h.clearStaging.staging, h.clearStaging.used⟩
  · exact (h.removeFrom keep).appendStaging

/-- **Inversion of the merge of two members of an album.** The later one is kept when it alone has a
text. -/
theorem joined_cases (last item : TbMessage) : ∃ mediaCount media,
    joined last item = ({ item with mediaCount, media, height := -1 }, { last with mediaCount, media }) ∨
      joined last item = ({ last with mediaCount, media, height := -1 }, item) := by
  by_cases htext : isEmpty (last.strings .text) ∧ ¬ isEmpty (item.strings .text)
  · exact ⟨_, _, .inl (if_pos htext)⟩
  · exact ⟨_, _, .inr (if_neg htext)⟩

theorem taken_joined (last item : TbMessage) :
    (joined last item).1.taken + (joined last item).2.taken = last.taken + item.taken := by
  obtain ⟨mediaCount, media, heq | heq⟩ := joined_cases last item
  all_goals rw [heq]
  · exact add_comm _ _
  · rfl

theorem sane_joined {last item : TbMessage} (hlast : Sane last) (hitem : Sane item) :
    Sane (joined last item).1 ∧ Sane (joined last item).2 := by
  obtain ⟨mediaCount, media, heq | heq⟩ := joined_cases last item
  all_goals rw [heq]
  · exact ⟨⟨hitem.clean, hitem.parsed, hitem.spells⟩, ⟨hlast.clean, hlast.parsed, hlast.spells⟩⟩
  · exact ⟨⟨hlast.clean, hlast.parsed, hlast.spells⟩, hitem⟩

theorem accounted_albumsFrom {items : List TbMessage} {last : TbMessage} {used rest : ℕ}
    (hlast : Sane last) (hitems : ∀ item ∈ items, Sane item)
    (hused : used = rest + last.taken + cost items) :
    (∀ item ∈ (albumsFrom last used items).1, Sane item) ∧
      (albumsFrom last used items).2 = rest + cost (albumsFrom last used items).1 := by
  induction items generalizing last used rest with
  | nil => simpa [albumsFrom] using ⟨hlast, hused⟩
  | cons item items ih =>
    rw [forall_mem_cons] at hitems
    rw [cost_cons] at hused
    simp only [albumsFrom]
    split_ifs
    · obtain ⟨hkept, hfreed⟩ := sane_joined hlast hitems.1
      have htaken := taken_joined last item
      refine ih hkept hitems.2 ?_
      rw [freeMessage_of_sane hfreed, hused]
      omega
    · obtain ⟨hsane, heq⟩ := @ih item used (rest + last.taken) hitems.1 hitems.2 (by omega)
      refine ⟨?_, ?_⟩
      · simpa using ⟨hlast, hsane⟩
      · simp only [heq, cost_cons]
        omega

theorem Accounted.mergeAlbums (h : Accounted messages) : Accounted messages.mergeAlbums := by
  unfold TbMessages.mergeAlbums
  split
  · exact h
  · rename_i first items hitems
    have hsane := h.items
    have hused := h.used
    rw [hitems, forall_mem_cons] at hsane
    rw [hitems, cost_cons] at hused
    obtain ⟨hkept, heq⟩ := @accounted_albumsFrom items first messages.used (cost messages.staging)
      hsane.1 hsane.2 (by omega)
    exact ⟨hkept, h.staging, heq.trans (add_comm _ _)⟩

def merged (config : TbHistoryConfig) (op : TbHistoryOp) (messages : TbMessages) : TbMessages :=
  match op with
  | .older => messages.sortStaging.prependStaging config
  | _ => messages.sortStaging.mergeNewest config (decide (op = TbHistoryOp.first))

/-- What `finish` does to the messages. -/
def finished (config : TbHistoryConfig) (op : TbHistoryOp) (messages : TbMessages) : TbMessages :=
  ((messages.merged config op).evictNewest config).mergeAlbums

theorem Accounted.merged (h : Accounted messages) (op : TbHistoryOp) :
    Accounted (messages.merged config op) := by
  cases op with
  | older => exact h.sortStaging.prependStaging
  | none | first | refresh => exact h.sortStaging.mergeNewest _

theorem Accounted.finished (h : Accounted messages) (op : TbHistoryOp) :
    Accounted (messages.finished config op) :=
  ((h.merged op).evictLoop _).mergeAlbums

end TbMessages

end Watch.HistoryView
