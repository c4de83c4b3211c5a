import TeleBezel.Watch.HistoryBudget

/-!
# The order of the messages in the history view

A page is sorted before it is merged. At the end of the items only a greater key is appended; at the
front, every message before the oldest is taken, also when the page repeats it. Eviction drops from
the end, and members of an album that are neighbours become one item.
-/

open List

namespace Watch.HistoryView

open HistoryView.TbMessage

variable {config : TbHistoryConfig} {messages : TbMessages}

/-- In the order of their keys. -/
def ByKey (items : List TbMessage) : Prop := items.Pairwise fun a b => a.key < b.key

def NoAlbum (items : List TbMessage) : Prop :=
  items.IsChain fun a b => ¬ (b.album ≠ 0 ∧ a.album = b.album)

theorem byKey_iff_map {items : List TbMessage} :
    ByKey items ↔ (items.map key).Pairwise (· < ·) :=
  pairwise_map.symm

theorem ByKey.lt_of_last {items : List TbMessage} {key : ℤ} (h : ByKey items)
    (hlast : ¬ items.getLast?.any (fun last => decide (key ≤ last.key)) = true) :
    ∀ item ∈ items, item.key < key := by
  intro item hitem
  cases items using List.reverseRecOn with
  | nil => cases hitem
  | append_singleton items last =>
    simp only [List.getLast?_concat, Option.any_some, decide_eq_true_eq, not_le] at hlast
    rcases mem_append.mp hitem with hold | hnew
    · exact lt_trans ((pairwise_append.mp h).2.2 item hold last (by simp)) hlast
    · rw [mem_singleton.mp hnew]
      exact hlast

namespace TbMessages

/-! ### The page -/

theorem le_of_getLast {sorted : List TbMessage} {key : ℤ}
    (h : sorted.Pairwise fun a b => a.key ≤ b.key)
    (hlast : ∀ hne : sorted ≠ [], (sorted.getLast hne).key ≤ key) :
    ∀ item ∈ sorted, item.key ≤ key := by
  intro item hitem
  cases sorted using List.reverseRecOn with
  | nil => cases hitem
  | append_singleton sorted last =>
    have hle : last.key ≤ key := by simpa using hlast (by simp)
    rcases mem_append.mp hitem with hold | hnew
    · exact ((pairwise_append.mp h).2.2 item hold last (by simp)).trans hle
    · rw [mem_singleton.mp hnew]
      exact hle

theorem sorted_insertByKey {sorted : List TbMessage} (h : sorted.Pairwise fun a b => a.key ≤ b.key)
    (item : TbMessage) : (insertByKey sorted item).Pairwise fun a b => a.key ≤ b.key := by
  have hsplit := @List.rdropWhile_append_rtakeWhile _ (fun other => decide (item.key < other.key)) sorted
  have hdropped : ∀ other ∈ sorted.rdropWhile (fun other => decide (item.key < other.key)),
      other.key ≤ item.key := by
    refine le_of_getLast (h.sublist (List.rdropWhile_prefix _ _).sublist) fun hne => ?_
    simpa using rdropWhile_last_not _ _ hne
  have htaken : ∀ other ∈ sorted.rtakeWhile (fun other => decide (item.key < other.key)),
      item.key ≤ other.key := by
    intro other hother
    have := mem_rtakeWhile_imp hother
    simp only [decide_eq_true_eq] at this
    exact this.le
  rw [← hsplit, pairwise_append] at h
  unfold insertByKey
  rw [pairwise_append, pairwise_cons]
  refine ⟨h.1, ⟨htaken, h.2.1⟩, fun a ha b hb => ?_⟩
  rcases mem_cons.mp hb with rfl | hb
  · exact hdropped a ha
  · exact (hdropped a ha).trans (htaken b hb)

theorem sorted_sortStaging (messages : TbMessages) :
    messages.sortStaging.staging.Pairwise fun a b => a.key ≤ b.key := by
  have hsort : ∀ (staging sorted : List TbMessage), (sorted.Pairwise fun a b => a.key ≤ b.key) →
      (staging.foldl insertByKey sorted).Pairwise fun a b => a.key ≤ b.key := by
    intro staging
    induction staging with
    | nil => exact fun _ h => h
    | cons item staging ih => exact fun sorted h => ih _ (sorted_insertByKey h item)
  exact hsort _ _ List.Pairwise.nil

def keysOf (payload : List UInt8) : List ℤ :=
  (recordsOf payload).filterMap fun record => tbParseId record.id

theorem length_staging_parse (h : messages.staging.length ≤ config.pageLimit)
    (malloc : ℕ → StringField → Bool) (payload : List UInt8) :
    (messages.parse config malloc payload).1.staging.length ≤ config.pageLimit := by
  refine parse_induction (·.staging.length ≤ config.pageLimit) payload ?_ malloc h
  intro record _ malloc before after hbefore hstage
  rcases stage_cases hstage with ⟨-, rfl⟩ | ⟨hroom, id, key, -, -, rfl | rfl⟩
  · exact hbefore
  · exact hbefore
  · simpa [Nat.succ_le_iff] using hroom

theorem stagingInvalid_stageAll (malloc : ℕ → StringField → Bool) (records : List TbMessageRecord)
    (index : ℕ) (h : messages.stagingInvalid = true) :
    (messages.stageAll config malloc index records).stagingInvalid = true := by
  induction records generalizing messages index with
  | nil => exact h
  | cons record records ih =>
    simp only [stageAll]
    split
    · exact h
    · rename_i messages' hstage
      refine ih _ ?_
      rcases stage_cases hstage with ⟨-, rfl⟩ | ⟨-, id, key, -, -, rfl | rfl⟩
      · exact h
      · rfl
      · exact h

theorem keys_staging_initial (hpage : messages.staging.length ≤ config.pageLimit) (more : List ℤ) :
    messages.staging.map key <+:
      (messages.staging.map key ++ more).take config.pageLimit :=
  prefix_take_iff.mpr ⟨prefix_append _ _, by simpa using hpage⟩

theorem keys_stageAll (malloc : ℕ → StringField → Bool) (records : List TbMessageRecord)
    (index : ℕ) (hvalid : (messages.stageAll config malloc index records).stagingInvalid = false)
    (hpage : messages.staging.length ≤ config.pageLimit) :
    (messages.stageAll config malloc index records).staging.map key <+:
      (messages.staging.map key ++
        records.filterMap fun record => tbParseId record.id).take config.pageLimit := by
  induction records generalizing messages index with
  | nil => exact keys_staging_initial hpage []
  | cons record records ih =>
    simp only [stageAll] at hvalid ⊢
    cases hstage : messages.stage config (malloc index) record with
    | none => exact keys_staging_initial hpage _
    | some messages' =>
      rw [hstage] at hvalid
      rcases stage_cases hstage with ⟨hfull, rfl⟩ | ⟨hroom, id, key, hid, hkey, rfl | rfl⟩
      · have hrest := ih (index + 1) hvalid hpage
        rw [take_append_of_le_length (by simpa using hfull)] at hrest ⊢
        exact hrest
      · rw [stagingInvalid_stageAll malloc records _ rfl] at hvalid
        cases hvalid
      · obtain ⟨rfl, -⟩ := tbCopyId_eq hid
        have hrest := ih (index + 1) hvalid (by simpa [Nat.succ_le_iff] using hroom)
        simp only [filterMap_cons, hkey]
        simpa [messageOf] using hrest

theorem keys_parse (malloc : ℕ → StringField → Bool) (payload : List UInt8)
    (hvalid : (messages.parse config malloc payload).1.stagingInvalid = false)
    (hpage : messages.staging.length ≤ config.pageLimit) :
    (messages.parse config malloc payload).1.staging.map key <+:
      (messages.staging.map key ++ keysOf payload).take config.pageLimit := by
  rw [parse_eq_stageAll] at hvalid ⊢
  exact keys_stageAll malloc _ 0 hvalid hpage

/-! ### The merges -/

theorem byKey_appendLoop {staging items : List TbMessage} {used : ℕ} (h : ByKey items)
    (hcount : items.length ≤ config.capacity) :
    ByKey (appendLoop config staging items used).1 ∧
      (appendLoop config staging items used).1.length ≤ config.capacity := by
  induction staging generalizing items used with
  | nil => exact ⟨h, hcount⟩
  | cons item staging ih =>
    simp only [appendLoop]
    split_ifs with hdropped
    · exact ih h hcount
    · rw [not_or, not_le] at hdropped
      refine ih ?_ ?_
      · refine pairwise_append.mpr ⟨h, pairwise_singleton _ _, fun a ha b hb => ?_⟩
        rw [mem_singleton.mp hb]
        exact h.lt_of_last hdropped.1 a ha
      · rw [length_append, length_singleton]
        exact hdropped.2

theorem acceptLoop_eq (oldest : ℤ) (staging accepted : List TbMessage) (used : ℕ) :
    ∃ more, (acceptLoop config oldest staging accepted used).1 = accepted ++ more ∧
      more.Sublist (staging.filter fun item => item.key < oldest) ∧
      (accepted.length ≤ config.capacity → (accepted ++ more).length ≤ config.capacity) := by
  induction staging generalizing accepted used with
  | nil => exact ⟨[], by simp [acceptLoop], by simp, by simp⟩
  | cons item staging ih =>
    simp only [acceptLoop]
    split_ifs with htaken
    · obtain ⟨more, heq, hsub, hlength⟩ := ih (accepted ++ [item]) used
      refine ⟨item :: more, by simpa using heq, ?_, fun _ => ?_⟩
      · rw [filter_cons_of_pos (by simpa using htaken.1)]
        exact hsub.cons_cons item
      · have hmore := hlength (by simpa [Nat.succ_le_iff] using htaken.2)
        simpa using hmore
    · obtain ⟨more, heq, hsub, hlength⟩ := ih accepted (freeMessage used item)
      refine ⟨more, heq, ?_, hlength⟩
      by_cases hkey : item.key < oldest
      · rw [filter_cons_of_pos (by simpa using hkey)]
        exact hsub.cons item
      · rw [filter_cons_of_neg (by simpa using hkey)]
        exact hsub

def oldest (messages : TbMessages) : ℤ := (messages.items.head?.map key).getD int64Max

theorem oldest_le (h : ByKey messages.items) {item : TbMessage} (hitem : item ∈ messages.items) :
    messages.oldest ≤ item.key := by
  unfold oldest
  cases hitems : messages.items with
  | nil =>
    rw [hitems] at hitem
    cases hitem
  | cons first items =>
    rw [hitems] at h hitem
    rcases mem_cons.mp hitem with rfl | hlater
    · exact le_rfl
    · exact (rel_of_pairwise_cons h hlater).le

def Apart (oldest : ℤ) (keys : List ℤ) : Prop := (keys.filter fun key => key < oldest).Nodup

instance (oldest : ℤ) (keys : List ℤ) : Decidable (Apart oldest keys) :=
  inferInstanceAs (Decidable (List.Nodup _))

theorem byKey_prependStaging (h : ByKey messages.items)
    (hcount : messages.items.length ≤ config.capacity)
    (hsorted : messages.staging.Pairwise fun a b => a.key ≤ b.key)
    (hapart : Apart messages.oldest (messages.staging.map key)) :
    ByKey (messages.prependStaging config).items ∧
      (messages.prependStaging config).items.length ≤ config.capacity := by
  unfold prependStaging
  dsimp only
  obtain ⟨more, heq, hsub, hlength⟩ := @acceptLoop_eq config
    ((messages.items.head?.map key).getD int64Max) messages.staging [] messages.used
  rw [nil_append] at heq hlength
  split_ifs with hnone
  · exact ⟨h, hcount⟩
  · rw [heq]
    have hroom := hlength (Nat.zero_le _)
    refine ⟨pairwise_append.mpr ⟨?_, ?_, ?_⟩, ?_⟩
    · -- what is sorted and has no key twice is strictly increasing
      have hle := hsorted.sublist (hsub.trans filter_sublist)
      have hne : (more.map key).Nodup := by
        refine List.Nodup.sublist (hsub.map key) ?_
        unfold Apart at hapart
        rw [filter_map] at hapart
        exact hapart
      rw [List.Nodup, pairwise_map] at hne
      exact (hle.and hne).imp fun h => lt_of_le_of_ne h.1 h.2
    · exact h.sublist (take_sublist _ _)
    · intro a ha b hb
      have hbefore : a.key < messages.oldest := by
        simpa [oldest] using (mem_filter.mp (hsub.subset ha)).2
      exact lt_of_lt_of_le hbefore (oldest_le h (mem_of_mem_take hb))
    · rw [length_append, length_take]
      omega

theorem byKey_mergeNewest (h : ByKey messages.items)
    (hcount : messages.items.length ≤ config.capacity) (first : Bool) :
    ByKey (messages.mergeNewest config first).items ∧
      (messages.mergeNewest config first).items.length ≤ config.capacity := by
  rcases mergeNewest_cases config messages first with heq | ⟨-, heq⟩ | heq | ⟨keep, heq⟩
  all_goals rw [heq]
  · exact byKey_appendLoop List.Pairwise.nil (Nat.zero_le _)
  · exact ⟨h, hcount⟩
  · exact ⟨h, hcount⟩
  · refine byKey_appendLoop (h.sublist (take_sublist _ _)) ?_
    exact (length_take_le' _ _).trans hcount

/-! ### Eviction -/

theorem evictLoop_initial (fuel : ℕ) (messages : TbMessages) :
    (messages.evictLoop config fuel).items <+: messages.items ∧
      (messages.evictLoop config fuel).staging = messages.staging := by
  induction fuel generalizing messages with
  | zero => exact ⟨prefix_refl _, rfl⟩
  | succ fuel ih =>
    simp only [TbMessages.evictLoop]
    split
    · exact ⟨prefix_refl _, rfl⟩
    · split_ifs
      · exact ⟨(ih _).1.trans (List.dropLast_prefix _), (ih _).2⟩
      · exact ⟨prefix_refl _, rfl⟩

theorem evictLoop_fits {fuel : ℕ} {messages : TbMessages} (hfuel : messages.items.length ≤ fuel) :
    (messages.evictLoop config fuel).items = [] ∨
      (messages.evictLoop config fuel).used ≤ config.textBudget := by
  induction fuel generalizing messages with
  | zero => exact .inl (eq_nil_of_length_eq_zero (Nat.le_zero.mp hfuel))
  | succ fuel ih =>
    simp only [TbMessages.evictLoop]
    split
    · rename_i hnone
      exact .inl (List.getLast?_eq_none_iff.mp hnone)
    · split_ifs with hover
      · refine ih ?_
        rw [length_dropLast]
        omega
      · simp only [overLimits, Bool.or_eq_true, decide_eq_true_eq, not_or, not_lt] at hover
        exact .inr hover.2

/-! ### Albums -/

theorem key_joined (last item : TbMessage) :
    (joined last item).1.key = last.key ∨ (joined last item).1.key = item.key := by
  obtain ⟨mediaCount, media, heq | heq⟩ := joined_cases last item
  all_goals rw [heq]
  · exact .inr rfl
  · exact .inl rfl

theorem album_joined {last item : TbMessage} (h : last.album = item.album) :
    (joined last item).1.album = last.album := by
  obtain ⟨mediaCount, media, heq | heq⟩ := joined_cases last item
  all_goals rw [heq]
  · exact h.symm

theorem keys_albumsFrom (last : TbMessage) (used : ℕ) (items : List TbMessage) :
    ((albumsFrom last used items).1.map key).Sublist
      ((last :: items).map key) := by
  induction items generalizing last used with
  | nil => exact List.Sublist.refl _
  | cons item items ih =>
    simp only [albumsFrom]
    split_ifs
    · refine (ih _ _).trans ?_
      simp only [map_cons]
      rcases key_joined last item with hkey | hkey
      · rw [hkey]
        exact (sublist_cons_self _ _).cons_cons _
      · rw [hkey]
        exact sublist_cons_self _ _
    · exact (ih item used).cons_cons last.key

theorem noAlbum_albumsFrom (last : TbMessage) (used : ℕ) (items : List TbMessage) :
    NoAlbum (albumsFrom last used items).1 ∧
      ∃ first others, (albumsFrom last used items).1 = first :: others ∧ first.album = last.album := by
  induction items generalizing last used with
  | nil => exact ⟨.singleton last, last, [], rfl, rfl⟩
  | cons item items ih =>
    simp only [albumsFrom]
    split_ifs with hmember
    · obtain ⟨hchain, first, others, heq, halbum⟩ := ih (joined last item).1
        (freeMessage used (joined last item).2)
      exact ⟨hchain, first, others, heq, halbum.trans (album_joined hmember.2)⟩
    · obtain ⟨hchain, first, others, heq, halbum⟩ := ih item used
      refine ⟨?_, last, _, rfl, rfl⟩
      unfold NoAlbum at hchain ⊢
      rw [heq] at hchain ⊢
      rw [isChain_cons_cons]
      refine ⟨?_, hchain⟩
      rw [halbum]
      exact hmember

theorem freeMessage_le (used : ℕ) (item : TbMessage) : freeMessage used item ≤ used := by
  unfold freeMessage
  generalize StringField.all = fields
  induction fields generalizing used with
  | nil => exact le_rfl
  | cons field fields ih =>
    refine (ih _).trans ?_
    dsimp only
    unfold tbBudgetFree
    split
    · exact le_rfl
    · split_ifs <;> omega

theorem used_albumsFrom_le (last : TbMessage) (used : ℕ) (items : List TbMessage) :
    (albumsFrom last used items).2 ≤ used := by
  induction items generalizing last used with
  | nil => exact le_rfl
  | cons item items ih =>
    simp only [albumsFrom]
    split_ifs
    · exact (ih _ _).trans (freeMessage_le _ _)
    · exact ih _ _

theorem mergeAlbums_spec (messages : TbMessages) :
    (messages.mergeAlbums.items.map key).Sublist (messages.items.map key) ∧
      NoAlbum messages.mergeAlbums.items ∧ messages.mergeAlbums.used ≤ messages.used ∧
      (messages.items = [] → messages.mergeAlbums.items = []) ∧
      messages.mergeAlbums.staging = messages.staging := by
  unfold TbMessages.mergeAlbums
  split
  · rename_i hnone
    refine ⟨List.Sublist.refl _, ?_, le_rfl, fun h => h, rfl⟩
    rw [hnone]
    exact .nil
  · rename_i first items hitems
    refine ⟨?_, ?_, ?_, ?_, rfl⟩
    · rw [hitems]
      exact keys_albumsFrom first messages.used items
    · exact (noAlbum_albumsFrom first messages.used items).1
    · exact used_albumsFrom_le first messages.used items
    · intro hnone
      cases hitems.symm.trans hnone

/-! ### The end of a page -/

theorem byKey_merged (h : ByKey messages.items) (hcount : messages.items.length ≤ config.capacity)
    {op : TbHistoryOp}
    (hapart : op = .older → Apart messages.oldest (messages.staging.map key)) :
    ByKey (messages.merged config op).items ∧
      (messages.merged config op).items.length ≤ config.capacity := by
  cases op with
  | none | first | refresh => exact @byKey_mergeNewest config messages.sortStaging h hcount _
  | older =>
    refine byKey_prependStaging h hcount (sorted_sortStaging messages) ?_
    have hperm : messages.sortStaging.staging.Perm messages.staging := by
      simpa [TbMessages.sortStaging] using sort_perm [] messages.staging
    exact (((hperm.map key).filter _).nodup_iff).mpr (hapart rfl)

theorem staging_merged (op : TbHistoryOp) : (messages.merged config op).staging = [] := by
  cases op with
  | none | first | refresh =>
    unfold merged
    rcases mergeNewest_cases config messages.sortStaging _ with heq | ⟨hnone, heq⟩ | heq | ⟨keep, heq⟩
    · rw [heq]; rfl
    · rw [heq]; exact hnone
    · rw [heq]; rfl
    · rw [heq]; rfl
  | older =>
    unfold merged prependStaging
    dsimp only
    split_ifs <;> rfl

theorem byKey_finished (h : ByKey messages.items) (hcount : messages.items.length ≤ config.capacity)
    {op : TbHistoryOp}
    (hapart : op = .older → Apart messages.oldest (messages.staging.map key)) :
    ByKey (messages.finished config op).items ∧
      (messages.finished config op).items.length ≤ config.capacity := by
  obtain ⟨hkeys, hlength⟩ := @byKey_merged config messages h hcount op hapart
  obtain ⟨hevicted, -⟩ := @evictLoop_initial config (messages.merged config op).items.length
    (messages.merged config op)
  obtain ⟨halbums, -⟩ := mergeAlbums_spec ((messages.merged config op).evictNewest config)
  have hsub : ((messages.finished config op).items.map key).Sublist
      ((messages.merged config op).items.map key) :=
    halbums.trans (hevicted.sublist.map key)
  refine ⟨?_, ?_⟩
  · rw [byKey_iff_map] at hkeys ⊢
    exact hkeys.sublist hsub
  · have hle := hsub.length_le
    rw [length_map, length_map] at hle
    exact hle.trans hlength

theorem noAlbum_finished (op : TbHistoryOp) : NoAlbum (messages.finished config op).items :=
  (mergeAlbums_spec ((messages.merged config op).evictNewest config)).2.1

theorem staging_finished (op : TbHistoryOp) : (messages.finished config op).staging = [] := by
  obtain ⟨-, -, -, -, halbums⟩ := mergeAlbums_spec ((messages.merged config op).evictNewest config)
  exact halbums.trans ((evictLoop_initial _ _).2.trans (staging_merged op))

theorem used_finished_le (op : TbHistoryOp) :
    (messages.finished config op).items = [] ∨
      (messages.finished config op).used ≤ config.textBudget := by
  obtain ⟨-, -, hused, hnone, -⟩ := mergeAlbums_spec ((messages.merged config op).evictNewest config)
  have hfits := @evictLoop_fits config _ (messages.merged config op) le_rfl
  exact hfits.imp hnone hused.trans

end TbMessages

end Watch.HistoryView
