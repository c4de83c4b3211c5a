import Mathlib.Data.List.Destutter
import TeleBezel.Watch.HistoryArmed
import TeleBezel.Watch.HistoryList

/-!
# A refresh of the history view that fits

A page of the newest messages replaces the items from its smallest key on. Whether there is room is
looked at before the replaced items are given up: the items are counted as they will be, the bytes as
they are, with the strings of the replaced items and of the page.
-/

open List

namespace Watch.HistoryView

variable {config : TbHistoryConfig} {env : Env} {history : TbHistory}

/-! ### What an event does to the items -/

def Sorted (items : List TbMessage) : Prop := items.Pairwise fun a b => a.key ≤ b.key

namespace TbHistory

theorem items_fail (error : ℤ) (retryAfter : ℕ) :
    (history.fail config env error retryAfter).items = history.items := by
  rw [messages_fail]
  rfl

theorem items_asks {timer : Option (ℕ × ℕ)} {times : List ℕ} {result : TbHistory}
    (h : Asks env history timer times result) : result.items = history.items := by
  obtain ⟨history', op, page, silent, -, -, halike, -, -, rfl⟩ := h
  have hitems : history'.items = history.items := congrArg TbMessages.items halike.messages
  rw [messages_submit]
  exact hitems

theorem items_arms {times : List ℕ} {result : TbHistory} (h : Arms env history times result) :
    result.items = history.items := by
  obtain ⟨history', halike, -, rfl⟩ := h
  exact congrArg TbMessages.items halike.messages

theorem items_step (hsound : Sound history) (event : Event × Env) :
    (step config history event).items = history.items ∨ (step config history event).items = [] ∨
      ∃ messages : TbMessages, messages.items = history.items ∧
        (step config history event).items = (messages.finished config history.op).items := by
  obtain ⟨event, env⟩ := event
  cases event with
  | «open» account chat =>
    rcases open_cases env history account chat with
      ⟨-, -, history', hmessages, -, -, -, -, heq⟩ | ⟨-, history', hmessages, -, -, heq⟩
    all_goals simp only [step, heq]
    · refine .inl ?_
      rw [messages_submit, hmessages]
      rfl
    · refine .inr (.inl ?_)
      rw [messages_submit, hmessages]
      rfl
  | close => exact .inl rfl
  | loadOlder =>
    refine .inl ?_
    rcases loadOlder_cases env history with ⟨-, heq⟩ | ⟨-, -, -, hasks⟩
    · simp only [step, heq]
    · exact items_asks hasks
  | refresh =>
    refine .inl ?_
    rcases refresh_cases env history with ⟨-, heq⟩ | ⟨-, -, hasks⟩
    · simp only [step, heq]
    · exact items_asks hasks
  | retry =>
    refine .inl ?_
    rcases retry_cases env history with ⟨-, heq⟩ | ⟨-, -, hasks⟩
    · simp only [step, heq]
    · exact items_asks hasks
  | setActive active =>
    refine .inl ?_
    rcases setActive_cases config env history active with
      ⟨-, heq⟩ | ⟨-, ⟨-, harms⟩ | ⟨-, -, -, -, -, hasks⟩ | ⟨-, harms⟩⟩
    · simp only [step, heq]
    · have hitems := items_arms harms
      exact hitems
    · have hitems := items_asks hasks
      exact hitems
    · have hitems := items_arms harms
      exact hitems
  | timer =>
    refine .inl ?_
    rcases timerRan_cases env hsound with ⟨-, harms⟩ | ⟨-, -, _, _, _, -, harms⟩ | ⟨-, -, hasks⟩ |
      ⟨-, -, -, harms⟩ | ⟨-, -, -, -, -, hasks⟩
    · exact items_arms harms
    · exact items_arms harms
    · exact items_asks hasks
    · exact items_arms harms
    · exact items_asks hasks
  | response sequence response flags =>
    have hitems : (history.parse config env response.payload).1.items = history.items :=
      TbMessages.items_parse env.malloc response.payload
    rcases @completed_cases config env history sequence response flags with
      ⟨-, heq⟩ | ⟨-, -, ⟨-, heq⟩ | ⟨-, -, ⟨-, heq⟩ | ⟨-, -, heq⟩ | ⟨-, -, -, heq⟩ | ⟨-, -, -, heq⟩⟩⟩
    all_goals simp only [step, heq]
    · exact .inl trivial
    · exact .inl (items_fail _ _)
    · exact .inl ((items_fail _ _).trans hitems)
    · exact .inl hitems
    · exact .inl ((items_fail _ _).trans hitems)
    · refine .inr (.inr ⟨(history.parse config env response.payload).1.toTbMessages, hitems, ?_⟩)
      rw [messages_finish]
      rfl

end TbHistory

/-! ### The order of the items -/

namespace TbMessages

variable {messages : TbMessages}

theorem sorted_appendLoop {staging items : List TbMessage} {used : ℕ} (h : Sorted items) :
    Sorted (appendLoop config staging items used).1 := by
  induction staging generalizing items used with
  | nil => exact h
  | cons item staging ih =>
    simp only [appendLoop]
    split_ifs with hdropped
    · exact ih h
    · rw [not_or] at hdropped
      refine ih (pairwise_append.mpr ⟨h, pairwise_singleton _ _, fun a ha b hb => ?_⟩)
      rw [mem_singleton.mp hb]
      refine le_of_getLast h (fun hne => ?_) a ha
      have hlast := hdropped.1
      rw [List.getLast?_eq_some_getLast hne] at hlast
      exact le_of_lt (by simpa using hlast)

theorem sorted_finished (h : Sorted messages.items) (op : TbHistoryOp) :
    Sorted (messages.finished config op).items := by
  have hmerged : Sorted (messages.merged config op).items := by
    cases op with
    | none | first | refresh =>
      unfold merged
      rcases mergeNewest_cases config messages.sortStaging _ with heq | ⟨-, heq⟩ | heq | ⟨keep, heq⟩
      all_goals rw [heq]
      · exact sorted_appendLoop List.Pairwise.nil
      · exact h
      · exact h
      · exact sorted_appendLoop (h.sublist (take_sublist _ _))
    | older =>
      unfold merged prependStaging
      dsimp only
      obtain ⟨more, heq, hsub, -⟩ := @acceptLoop_eq config
        ((messages.sortStaging.items.head?.map TbMessage.key).getD int64Max)
        messages.sortStaging.staging [] messages.sortStaging.used
      rw [nil_append] at heq
      have hmore : Sorted more :=
        (sorted_sortStaging messages).sublist (hsub.trans filter_sublist)
      split_ifs with hnone
      · exact h
      · refine pairwise_append.mpr ⟨?_, h.sublist (take_sublist _ _), fun a ha b hb => ?_⟩
        · exact heq ▸ hmore
        · rw [heq] at ha
          have hbefore : a.key < (messages.items.head?.map TbMessage.key).getD int64Max :=
            of_decide_eq_true (mem_filter.mp (hsub.subset ha)).2
          have hmem : b ∈ messages.items := mem_of_mem_take hb
          revert hbefore
          cases hitems : messages.items with
          | nil =>
            rw [hitems] at hmem
            cases hmem
          | cons first items =>
            intro hbefore
            rw [hitems] at h hmem
            rcases mem_cons.mp hmem with rfl | hlater
            · exact hbefore.le
            · exact hbefore.le.trans (rel_of_pairwise_cons h hlater)
  obtain ⟨hevicted, -⟩ := @evictLoop_initial config (messages.merged config op).items.length
    (messages.merged config op)
  obtain ⟨halbums, -⟩ := mergeAlbums_spec ((messages.merged config op).evictNewest config)
  unfold Sorted at hmerged ⊢
  rw [← pairwise_map (f := TbMessage.key) (R := (· ≤ ·))] at hmerged ⊢
  exact hmerged.sublist (halbums.trans (hevicted.sublist.map TbMessage.key))

end TbMessages

namespace TbHistory

theorem sorted_run (config : TbHistoryConfig) (events : List (Event × Env)) :
    Sorted (events.foldl (step config) {}).items ∧ NoAlbum (events.foldl (step config) {}).items := by
  have hrun : Sound (events.foldl (step config) {}) ∧ Sorted (events.foldl (step config) {}).items ∧
      NoAlbum (events.foldl (step config) {}).items := by
    induction events using List.reverseRecOn with
    | nil => exact ⟨sound_init, List.Pairwise.nil, .nil⟩
    | append_singleton events event ih =>
      obtain ⟨hsound, hsorted, halbum⟩ := ih
      rw [foldl_append]
      refine ⟨sound_step hsound event, ?_⟩
      simp only [foldl_cons, foldl_nil]
      rcases @items_step config _ hsound event with hsame | hnone | ⟨messages, hitems, hfinished⟩
      · rw [hsame]
        exact ⟨hsorted, halbum⟩
      · rw [hnone]
        exact ⟨List.Pairwise.nil, .nil⟩
      · rw [hfinished]
        exact ⟨TbMessages.sorted_finished (hitems ▸ hsorted) _, TbMessages.noAlbum_finished _⟩
  exact hrun.2

end TbHistory

/-! ### What the merge makes -/

def older (items page : List TbMessage) : List TbMessage :=
  items.filter fun item => page.head?.all fun smallest => item.key < smallest.key

def distinct (page : List TbMessage) : List TbMessage :=
  page.destutter fun a b => a.key < b.key

def joinedAlbums (items : List TbMessage) : List TbMessage :=
  ({ items } : TbMessages).mergeAlbums.items

/-- The page reaches what is shown. -/
def Meets (config : TbHistoryConfig) (items page : List TbMessage) : Prop :=
  match items.getLast?, page.head? with
  | some newest, some smallest => smallest.key ≤ newest.key ∨ page.length < config.pageLimit
  | _, _ => False

instance (items page : List TbMessage) : Decidable (Meets config items page) := by
  unfold Meets
  split <;> infer_instance

/-- The older items and the page are within the capacity, and their strings within the budget. -/
def Fits (config : TbHistoryConfig) (items page : List TbMessage) : Prop :=
  (older items page ++ page).length ≤ config.capacity ∧
    cost (older items page ++ page) ≤ config.textBudget

instance (items page : List TbMessage) : Decidable (Fits config items page) :=
  inferInstanceAs (Decidable (_ ∧ _))

namespace TbMessages

variable {items : List TbMessage}

theorem rdropWhile_eq_filter (h : Sorted items) (key : ℤ) :
    items.rdropWhile (fun item => decide (key ≤ item.key)) =
      items.filter fun item => item.key < key := by
  induction items using List.reverseRecOn with
  | nil => rfl
  | append_singleton items last ih =>
    have hitems : Sorted items := h.sublist (sublist_append_left _ _)
    rw [rdropWhile_concat, filter_append]
    by_cases hkey : key ≤ last.key
    · rw [if_pos (by simpa using hkey), ih hitems]
      simp [hkey]
    · have hall : ∀ item ∈ items, item.key < key := fun item hitem =>
        ((pairwise_append.mp h).2.2 item hitem last (by simp)).trans_lt (not_le.mp hkey)
      rw [if_neg (by simpa using hkey), filter_eq_self.mpr (by simpa using hall)]
      simp [not_le.mp hkey]

theorem appendLoop_eq_destutter {staging : List TbMessage} {last : TbMessage} {used : ℕ}
    (hcount : items.length + 1 + staging.length ≤ config.capacity) :
    (appendLoop config staging (items ++ [last]) used).1 =
      items ++ staging.destutter' (fun a b => a.key < b.key) last := by
  induction staging generalizing items last used with
  | nil => rfl
  | cons item staging ih =>
    rw [length_cons] at hcount
    have hroom : ¬ config.capacity ≤ (items ++ [last]).length := by simp; omega
    simp only [appendLoop, hroom, or_false, List.getLast?_concat, Option.any_some, decide_eq_true_eq]
    by_cases hkey : last.key < item.key
    · rw [if_neg (not_le.mpr hkey), ih (by simp; omega), destutter'_cons, if_pos hkey]
      simp
    · rw [if_pos (not_lt.mp hkey), ih (by omega), destutter'_cons, if_neg hkey]

theorem used_appendLoop_le {staging : List TbMessage} {used : ℕ} :
    (appendLoop config staging items used).2 ≤ used := by
  induction staging generalizing items used with
  | nil => exact le_rfl
  | cons item staging ih =>
    simp only [appendLoop]
    split_ifs
    · exact ih.trans (freeMessage_le _ _)
    · exact ih

theorem foldl_freeMessage_le (items : List TbMessage) (used : ℕ) :
    items.foldl freeMessage used ≤ used := by
  induction items generalizing used with
  | nil => exact le_rfl
  | cons item items ih => exact (ih _).trans (freeMessage_le _ _)

theorem items_albumsFrom (last : TbMessage) (items : List TbMessage) (used used' : ℕ) :
    (albumsFrom last used items).1 = (albumsFrom last used' items).1 := by
  induction items generalizing last used used' with
  | nil => rfl
  | cons item items ih =>
    simp only [albumsFrom]
    split_ifs
    · exact ih _ _ _
    · simp only [ih item used used']

theorem items_mergeAlbums (messages : TbMessages) :
    messages.mergeAlbums.items = joinedAlbums messages.items := by
  obtain ⟨items, staging, invalid, used, truncated⟩ := messages
  cases items with
  | nil => rfl
  | cons first items => exact items_albumsFrom first items used 0

variable {messages : TbMessages}

theorem evictNewest_of_fits (hcount : messages.items.length ≤ config.capacity)
    (hused : messages.used ≤ config.textBudget) : messages.evictNewest config = messages := by
  unfold evictNewest
  cases hitems : messages.items with
  | nil => rfl
  | cons item items =>
    rw [length_cons, evictLoop, hitems]
    split
    · rfl
    · have hfits : messages.overLimits config (item :: items).length = false := by
        rw [hitems] at hcount
        simp only [overLimits, Bool.or_eq_false_iff, decide_eq_false_iff_not, not_lt]
        exact ⟨hcount, hused⟩
      rw [hfits]
      rfl

theorem mergeNewest_of_fits (hsorted : Sorted messages.items)
    (hmeets : Meets config messages.items messages.staging)
    (hfits : Fits config messages.items messages.staging) :
    (messages.used ≤ config.textBudget →
      (messages.mergeNewest config false).items =
          older messages.items messages.staging ++ distinct messages.staging ∧
        (messages.mergeNewest config false).truncated = messages.truncated ∧
        (messages.mergeNewest config false).used ≤ config.textBudget) ∧
      (config.textBudget < messages.used → (messages.mergeNewest config false).truncated = true) := by
  unfold Meets at hmeets
  cases hlast : messages.items.getLast? with
  | none =>
    rw [hlast] at hmeets
    exact hmeets.elim
  | some newest =>
    cases hstaging : messages.staging with
    | nil =>
      rw [hlast, hstaging] at hmeets
      exact hmeets.elim
    | cons smallest rest =>
      rw [hlast, hstaging] at hmeets
      have hadjoins : smallest.key ≤ newest.key ∨ messages.staging.length < config.pageLimit := by
        rw [hstaging]
        exact hmeets
      have holder : older messages.items messages.staging =
          messages.items.filter fun item => item.key < smallest.key := by
        rw [hstaging]
        rfl
      -- the items that are kept are those before the smallest key of the page
      have hkept : messages.items.take (if smallest.key ≤ newest.key then
          messages.keptBefore smallest.key else messages.items.length) =
            older messages.items messages.staging := by
        rw [holder]
        split_ifs with hoverlaps
        · rw [keptBefore, prefix_iff_eq_take.mp (List.rdropWhile_prefix _ _) |>.symm,
            rdropWhile_eq_filter hsorted]
        · rw [take_length]
          refine (filter_eq_self.mpr fun item hitem => ?_).symm
          have hle : ∀ other ∈ messages.items, other.key ≤ newest.key :=
            le_of_getLast hsorted fun hne => by
              rw [List.getLast?_eq_some_getLast hne, Option.some.injEq] at hlast
              exact hlast ▸ le_rfl
          exact decide_eq_true ((hle item hitem).trans_lt (not_le.mp hoverlaps))
      generalize hkeep : (if smallest.key ≤ newest.key then messages.keptBefore smallest.key
        else messages.items.length) = keep at hkept
      have hlength : keep ≤ messages.items.length := by
        rw [← hkeep]
        split_ifs
        · exact (List.rdropWhile_prefix _ _).length_le
        · exact le_rfl
      have hcount : keep + messages.staging.length ≤ config.capacity := by
        have hcapacity := hfits.1
        rw [length_append, ← hkept, length_take, Nat.min_eq_left hlength] at hcapacity
        exact hcapacity
      have hlimits : messages.overLimits config ((keep + messages.staging.length) % 65536) =
          decide (config.textBudget < messages.used) := by
        have hmod := Nat.mod_le (keep + messages.staging.length) 65536
        simp only [overLimits, decide_eq_false (not_lt.mpr (hmod.trans hcount)), Bool.false_or]
      have hmerge : messages.mergeNewest config false =
          if config.textBudget < messages.used then { messages.clearStaging with truncated := true }
          else (messages.removeFrom keep).appendStaging config := by
        have hhead : messages.staging.head? = some smallest := by rw [hstaging]; rfl
        unfold mergeNewest
        rw [hlast]
        simp only [hhead, hkeep, hlimits, hadjoins, not_true_eq_false, false_or, decide_eq_true_eq]
      rw [hmerge, ← hstaging]
      refine ⟨fun hused => ?_, fun hused => ?_⟩
      · rw [if_neg (not_lt.mpr hused)]
        have hitems : (appendLoop config messages.staging (messages.items.take keep)
            (messages.removeFrom keep).used).1 =
              older messages.items messages.staging ++ distinct messages.staging := by
          have hbelow : ∀ item ∈ older messages.items messages.staging, item.key < smallest.key := by
            intro item hitem
            rw [holder] at hitem
            exact of_decide_eq_true (mem_filter.mp hitem).2
          have hlater : ¬ ((older messages.items messages.staging).getLast?.any
              (fun last => decide (smallest.key ≤ last.key)) = true ∨
                config.capacity ≤ (older messages.items messages.staging).length) := by
            rw [hstaging, length_cons] at hcount
            rintro (hrepeated | hfull)
            · rw [Option.any_eq_true] at hrepeated
              obtain ⟨last, hlast, hle⟩ := hrepeated
              have hlt := hbelow last (mem_of_getLast? hlast)
              exact absurd (of_decide_eq_true hle) (not_le.mpr hlt)
            · rw [← hkept, length_take, Nat.min_eq_left hlength] at hfull
              omega
          have hroom : (older messages.items messages.staging).length + 1 + rest.length ≤
              config.capacity := by
            rw [← hkept, length_take, Nat.min_eq_left hlength]
            rw [hstaging, length_cons] at hcount
            omega
          rw [hkept]
          rw [hstaging] at hlater hroom ⊢
          rw [appendLoop, if_neg hlater, appendLoop_eq_destutter hroom]
          rfl
        refine ⟨hitems, rfl, ?_⟩
        exact (used_appendLoop_le.trans (foldl_freeMessage_le _ _)).trans hused
      · rw [if_pos hused]

theorem finished_of_fits (hsorted : Sorted messages.items)
    (hmeets : Meets config messages.items messages.sortStaging.staging)
    (hfits : Fits config messages.items messages.sortStaging.staging)
    (hwhole : messages.truncated = false) :
    ((messages.finished config .refresh).items = joinedAlbums
        (older messages.items messages.sortStaging.staging ++ distinct messages.sortStaging.staging) ∧
      (messages.finished config .refresh).truncated = false) ↔
        messages.used ≤ config.textBudget := by
  obtain ⟨happlied, hdropped⟩ := @mergeNewest_of_fits config messages.sortStaging hsorted hmeets hfits
  have hmerged : messages.merged config .refresh = messages.sortStaging.mergeNewest config false := rfl
  unfold finished
  rw [hmerged]
  constructor
  · rintro ⟨-, htruncated⟩
    by_contra hused
    rw [truncated_mergeAlbums] at htruncated
    have hbefore := truncated_evictLoop _ htruncated
    rw [hdropped (not_le.mp hused)] at hbefore
    cases hbefore
  · intro hused
    obtain ⟨hitems, htruncated, hwithin⟩ := happlied hused
    have hcount : (messages.sortStaging.mergeNewest config false).items.length ≤ config.capacity := by
      rw [hitems, length_append]
      have hshorter := (destutter_sublist (fun a b : TbMessage => a.key < b.key)
        messages.sortStaging.staging).length_le
      have hcapacity := hfits.1
      rw [length_append] at hcapacity
      exact (Nat.add_le_add_left hshorter _).trans hcapacity
    rw [evictNewest_of_fits hcount hwithin, items_mergeAlbums, truncated_mergeAlbums, hitems, htruncated]
    exact ⟨rfl, hwhole⟩

theorem joinedAlbums_of_noAlbum (h : NoAlbum items) :
    joinedAlbums items = items := by
  have hfrom : ∀ (items : List TbMessage) (last : TbMessage) (used : ℕ), NoAlbum (last :: items) →
      (albumsFrom last used items).1 = last :: items := by
    intro items
    induction items with
    | nil => exact fun _ _ _ => rfl
    | cons item items ih =>
      intro last used hchain
      obtain ⟨hfirst, hrest⟩ := isChain_cons_cons.mp hchain
      rw [albumsFrom, if_neg hfirst]
      exact congrArg _ (ih item used hrest)
  cases items with
  | nil => rfl
  | cons first items => exact hfrom items first 0 h

theorem joinedAlbums_of_same {page : List TbMessage} (hkeys : ByKey items) (halbums : NoAlbum items)
    (hpage : page ≠ []) {count : ℕ} (hsame : page = items.drop count) :
    joinedAlbums (older items page ++ distinct page) = items := by
  have hsplit : items.take count ++ page = items := by rw [hsame, take_append_drop]
  have hstrict : ByKey page := hsame ▸ hkeys.sublist (drop_sublist _ _)
  have hdistinct : distinct page = page := destutter_of_isChain _ _ hstrict.isChain
  have holder : older items page = items.take count := by
    obtain ⟨smallest, rest, rfl⟩ := exists_cons_of_ne_nil hpage
    have hbefore : ∀ item ∈ items.take count, item.key < smallest.key := fun item hitem => by
      rw [← hsplit] at hkeys
      exact (pairwise_append.mp hkeys).2.2 item hitem smallest mem_cons_self
    have hafter : ∀ item ∈ smallest :: rest, ¬ item.key < smallest.key := by
      intro item hitem
      rcases mem_cons.mp hitem with rfl | hitem
      · exact lt_irrefl _
      · exact (rel_of_pairwise_cons hstrict hitem).not_gt
    unfold older
    conv_lhs => rw [← hsplit]
    rw [filter_append, filter_eq_self.mpr (by simpa using hbefore),
      filter_eq_nil_iff.mpr (by simpa using hafter), append_nil]
  rw [holder, hdistinct, hsplit, joinedAlbums_of_noAlbum halbums]

end TbMessages

/-! ### The refresh -/

/-- The last answer to the request for the newest messages has come, and the whole page is staged; newer
messages are not missing. -/
structure Refreshes (config : TbHistoryConfig) (history : TbHistory) (sequence : ℕ+)
    (response : TbResponse) (env : Env) : Prop where
  loaded : history.loaded = true
  whole : history.truncated = false
  op : history.op = .refresh
  pending : (sequence : ℕ) = history.pending
  outcome : response.outcome = .response
  result : response.result = tbResultOk
  final : response.final = true
  parsed : (history.parse config env response.payload).2 = true
  staged : (history.parse config env response.payload).1.stagingInvalid = false

instance (history : TbHistory) (sequence : ℕ+) (response : TbResponse) (env : Env) :
    Decidable (Refreshes config history sequence response env) :=
  decidable_of_iff ((history.loaded = true ∧ history.truncated = false ∧ history.op = .refresh) ∧
      (sequence = history.pending ∧ response.outcome = .response ∧ response.result = tbResultOk ∧
        response.final = true) ∧
      (history.parse config env response.payload).2 = true ∧
      (history.parse config env response.payload).1.stagingInvalid = false)
    ⟨fun ⟨⟨h₁, h₂, h₃⟩, ⟨h₄, h₅, h₆, h₇⟩, h₈, h₉⟩ => ⟨h₁, h₂, h₃, h₄, h₅, h₆, h₇, h₈, h₉⟩,
      fun h => ⟨⟨h.loaded, h.whole, h.op⟩, ⟨h.pending, h.outcome, h.result, h.final⟩, h.parsed, h.staged⟩⟩

def received (config : TbHistoryConfig) (history : TbHistory) (response : TbResponse) (env : Env) :
    TbMessages :=
  (history.parse config env response.payload).1.toTbMessages.sortStaging

/-- **When a refresh that fits is applied.** In every state of every run: a refresh that has come in
full and meets the items, and for which there is room once it is merged, is merged and leaves the view
whole exactly when the strings of the items and of the page fit together; so does a page that is the
newest items as they are shown. -/
theorem refreshed_iff (config : TbHistoryConfig) (events : List (Event × Env)) (sequence : ℕ+)
    (response : TbResponse) (flags : ℕ) (env : Env)
    (h : Refreshes config (events.foldl (step config) {}) sequence response env)
    (hmeets : Meets config (events.foldl (step config) {}).items
      (received config (events.foldl (step config) {}) response env).staging)
    (hfits : Fits config (events.foldl (step config) {}).items
      (received config (events.foldl (step config) {}) response env).staging) :
    let history := events.foldl (step config) {}
    let page := (received config history response env).staging
    let after := step config history (.response sequence response flags, env)
    ((after.items = joinedAlbums (older history.items page ++ distinct page) ∧
        after.truncated = false) ↔ (received config history response env).used ≤ config.textBudget) ∧
      ∀ count, ByKey history.items → page = history.items.drop count →
        ((after.items = history.items ∧ after.truncated = false) ↔
          (received config history response env).used ≤ config.textBudget) := by
  obtain ⟨hsorted, halbums⟩ := TbHistory.sorted_run config events
  revert h hmeets hfits hsorted halbums
  generalize events.foldl (step config) {} = history
  intro h hmeets hfits hsorted halbums
  dsimp only
  have hitems : (history.parse config env response.payload).1.items = history.items :=
    TbMessages.items_parse env.malloc response.payload
  have htruncated : (history.parse config env response.payload).1.truncated = false :=
    (TbMessages.truncated_parse env.malloc response.payload).trans h.whole
  -- the page ends
  have hafter : (step config history (.response sequence response flags, env)).toTbMessages =
      (history.parse config env response.payload).1.toTbMessages.finished config .refresh := by
    rcases @TbHistory.completed_cases config env history sequence response flags with
      ⟨hother | hother, -⟩ | ⟨-, -, ⟨hother, -⟩ | ⟨-, -, ⟨hother, -⟩ | ⟨-, hother, -⟩ |
        ⟨-, -, hother, -⟩ | ⟨-, -, -, heq⟩⟩⟩
    · exact absurd h.pending hother
    · cases h.outcome.symm.trans hother
    · exact absurd ⟨h.outcome, h.result⟩ hother
    · cases h.parsed.symm.trans hother
    · cases h.final.symm.trans hother
    · cases h.staged.symm.trans hother
    · have hop : (history.parse config env response.payload).1.op = .refresh := h.op
      simp only [step, heq]
      rw [TbHistory.messages_finish, hop]
  have hmain := @TbMessages.finished_of_fits config
    (history.parse config env response.payload).1.toTbMessages (hitems ▸ hsorted) (hitems ▸ hmeets)
    (hitems ▸ hfits) htruncated
  rw [hitems] at hmain
  rw [hafter]
  refine ⟨hmain, fun count hkeys hsame => ?_⟩
  have hpage : (received config history response env).staging ≠ [] := by
    intro hnone
    rw [Meets, hnone] at hmeets
    revert hmeets
    cases history.items.getLast? <;> exact id
  rw [← TbMessages.joinedAlbums_of_same hkeys halbums hpage hsame]
  exact hmain

instance : DecidableEq (StringField → Option (List UInt8)) := fun a b =>
  decidable_of_iff (∀ field ∈ StringField.all, a field = b field)
    ⟨fun h => funext fun field => h field (by cases field <;> decide), fun h _ _ => h ▸ rfl⟩

deriving instance DecidableEq for TbMessage

/-- The record of a message with a text and no other string, and a page of twenty such messages. -/
def textMessage (id text : List UInt8) : List UInt8 :=
  let body := [.ofNat id.length] ++ id ++ List.replicate 11 0 ++
    [.ofNat (text.length % 256), .ofNat (text.length / 256)] ++ text ++ List.replicate 11 0
  [4, .ofNat (body.length % 256), .ofNat (body.length / 256)] ++ body

@[inherit_doc textMessage]
def textPage (length : ℕ) : List UInt8 :=
  (List.range 20).flatMap fun index =>
    textMessage [0x31, 0x30 + .ofNat (index / 10), 0x30 + .ofNat (index % 10)]
      (List.replicate length 0x61)

attribute [local instance] neZero_one in
/-- A chat is opened, its first page arrives, and the newest messages are asked for again. -/
def refreshAsked (length : ℕ) : List (Event × Env) :=
  [(.open [0x61] [0x31], sampleEnv 1),
    (.response 1 { outcome := .response, payload := textPage length } 0, sampleEnv 2),
    (.refresh, sampleEnv 2)]

def samePage (length : ℕ) : TbResponse := { outcome := .response, payload := textPage length }

theorem refreshed_short :
    let history := (refreshAsked 4).foldl (step sampleConfig) {}
    let after := step sampleConfig history (.response 2 (samePage 4) 0, sampleEnv 2)
    after.items = history.items ∧ after.truncated = false := by
  obtain ⟨-, hsame⟩ := refreshed_iff sampleConfig (refreshAsked 4) 2 (samePage 4) 0 (sampleEnv 2)
    (by decide +kernel) (by decide +kernel) (by decide +kernel)
  refine (hsame 0 ?_ ?_).mpr ?_
  · unfold ByKey
    decide +kernel
  · decide +kernel
  · decide +kernel

/-- Twenty messages of 310 bytes fit, but not twice: the page is what is shown, and it is dropped. -/
theorem same_page_dropped :
    let history := (refreshAsked 310).foldl (step sampleConfig) {}
    let page := (received sampleConfig history (samePage 310) (sampleEnv 2)).staging
    Refreshes sampleConfig history 2 (samePage 310) (sampleEnv 2) ∧ page = history.items ∧
      Meets sampleConfig history.items page ∧ Fits sampleConfig history.items page ∧
      (step sampleConfig history (.response 2 (samePage 310) 0, sampleEnv 2)).truncated = true := by
  decide +kernel

end Watch.HistoryView
