import TeleBezel.Watch.HistoryAtomic

/-!
# The list of the history view

The items are strictly increasing by key, fit the capacity and the budget, and no two neighbours are
members of one album. The merge at the end drops what a page repeats; the merge at the front does not,
so that a page of older messages must not repeat one.
-/

namespace Watch.HistoryView

open Transition

variable {config : TbHistoryConfig} {env : Env} {history : TbHistory}

/-- What the list always is. -/
structure Listed (config : TbHistoryConfig) (history : TbHistory) : Prop where
  increasing : history.items.Pairwise fun a b => a.key < b.key
  ids : (history.items.map TbMessage.id).Nodup
  count : history.items.length ≤ config.capacity
  page : history.staging.length ≤ config.pageLimit
  albums : history.items.IsChain fun a b => ¬ (b.album ≠ 0 ∧ a.album = b.album)
  keys : ∀ item ∈ history.items, Spells item.id item.key
  used : history.used = ((history.items ++ history.staging).map fun item =>
    (StringField.all.map fun field => taken (item.strings field)).sum).sum
  limit : history.op = .none → history.items ≠ [] → history.used ≤ config.textBudget

/-- A page of older messages that completes does not repeat any. -/
def Distinct (config : TbHistoryConfig) (history : TbHistory) : Event × Env → Prop
  | (.response sequence response flags, env) =>
    TbHistory.Completes config history (.response sequence response flags, env) → history.op = .older →
      TbMessages.Apart history.oldest
        ((history.staging.map TbMessage.key ++ TbMessages.keysOf response.payload).take
          config.pageLimit)
  | _ => True

instance (history : TbHistory) : (event : Event × Env) → Decidable (Distinct config history event)
  | (.response _ _ _, _) =>
    inferInstanceAs (Decidable (_ ∧ _ ∧ _ ∧ _ ∧ _ ∧ _ → _ → TbMessages.Apart _ _))
  | (.open _ _, _) | (.close, _) | (.loadOlder, _) | (.refresh, _) | (.retry, _) | (.setActive _, _)
  | (.timer, _) => .isTrue trivial

namespace TbHistory

structure Tidy (config : TbHistoryConfig) (history : TbHistory) : Prop where
  increasing : ByKey history.items
  count : history.items.length ≤ config.capacity
  page : history.staging.length ≤ config.pageLimit
  albums : NoAlbum history.items
  within : history.items = [] ∨ cost history.items ≤ config.textBudget

variable {history' : TbHistory}

theorem Tidy.of_eq (h : Tidy config history) (hitems : history'.items = history.items)
    (hpage : history'.staging.length ≤ config.pageLimit) : Tidy config history' := by
  refine ⟨?_, ?_, hpage, ?_, ?_⟩
  all_goals rw [hitems]
  · exact h.increasing
  · exact h.count
  · exact h.albums
  · exact h.within

theorem Tidy.of_clear {messages : TbMessages} (h : Tidy config history)
    (hmessages : history'.toTbMessages = messages.clearStaging)
    (hitems : messages.items = history.items) : Tidy config history' := by
  refine h.of_eq ?_ ?_
  · rw [hmessages]
    exact hitems
  · rw [hmessages]
    exact Nat.zero_le _

theorem tidy_asks (h : Tidy config history) {timer : Option (ℕ × ℕ)} {times : List ℕ}
    {result : TbHistory} (hasks : Asks env history timer times result) : Tidy config result := by
  obtain ⟨history', op, page, silent, -, -, halike, -, -, rfl⟩ := hasks
  exact h.of_clear (messages_submit _ _ _) (congrArg TbMessages.items halike.messages)

theorem tidy_arms (h : Tidy config history) {times : List ℕ} {result : TbHistory}
    (harms : Arms env history times result) : Tidy config result := by
  obtain ⟨history', halike, -, rfl⟩ := harms
  refine h.of_eq (congrArg TbMessages.items halike.messages) ?_
  rw [show (history'.arm env).staging = history.staging from
    congrArg TbMessages.staging halike.messages]
  exact h.page

theorem tidy_completed (hkept : Kept history) (h : Tidy config history) (sequence : ℕ+)
    {response : TbResponse} (hclean : ∀ record ∈ recordsOf response.payload, record.NulFree)
    (flags : ℕ)
    (hdistinct : Completes config history (.response sequence response flags, env) →
      history.op = .older → TbMessages.Apart history.oldest ((history.staging.map TbMessage.key ++
        TbMessages.keysOf response.payload).take config.pageLimit)) :
    Tidy config (history.completed config env sequence response flags) := by
  have hparsed : (history.parse config env response.payload).1.toTbMessages.Accounted :=
    hkept.accounted.parse hclean env.malloc
  have hitems : (history.parse config env response.payload).1.items = history.items :=
    TbMessages.items_parse env.malloc response.payload
  have hpage : (history.parse config env response.payload).1.staging.length ≤ config.pageLimit :=
    TbMessages.length_staging_parse h.page env.malloc response.payload
  rcases @completed_cases config env history sequence response flags with
    ⟨-, heq⟩ | ⟨hsequence, -, ⟨-, heq⟩ | ⟨hresponse, hok, ⟨-, heq⟩ | ⟨-, -, heq⟩ | ⟨-, -, -, heq⟩ |
      ⟨hparse, hfinal, hvalid, heq⟩⟩⟩
  all_goals rw [heq]
  · exact h
  · exact h.of_clear (messages_fail _ _) rfl
  · exact h.of_clear (messages_fail _ _) hitems
  · exact h.of_eq hitems hpage
  · exact h.of_clear (messages_fail _ _) hitems
  · have hapart : history.op = .older → TbMessages.Apart
        (history.parse config env response.payload).1.oldest
        ((history.parse config env response.payload).1.staging.map TbMessage.key) := by
      intro holder
      have hinitial := TbMessages.keys_parse env.malloc response.payload hvalid h.page
      have holdest : (history.parse config env response.payload).1.oldest = history.oldest := by
        unfold TbMessages.oldest
        rw [hitems]
      rw [holdest]
      exact (hdistinct ⟨hsequence, hresponse, hok, hfinal, hparse, hvalid⟩ holder).sublist (hinitial.sublist.filter _)
    have hmessages : ((history.parse config env response.payload).1.finish config env
        flags).toTbMessages = (history.parse config env response.payload).1.toTbMessages.finished
          config history.op := messages_finish flags
    obtain ⟨hincreasing, hcount⟩ := @TbMessages.byKey_finished config
      (history.parse config env response.payload).1.toTbMessages (hitems ▸ h.increasing)
      (hitems ▸ h.count) history.op hapart
    have haccounted := @TbMessages.Accounted.finished config _ hparsed history.op
    have hstaging := @TbMessages.staging_finished config
      (history.parse config env response.payload).1.toTbMessages history.op
    constructor
    all_goals rw [hmessages]
    · exact hincreasing
    · exact hcount
    · rw [hstaging]
      exact Nat.zero_le _
    · exact TbMessages.noAlbum_finished _
    · refine (TbMessages.used_finished_le history.op).imp id fun hused => ?_
      rw [haccounted.used, hstaging, cost_nil] at hused
      exact hused

theorem tidy_clear_all (hitems : history'.items = [])
    (hstaging : history'.staging = []) : Tidy config history' := by
  refine ⟨?_, ?_, ?_, ?_, .inl hitems⟩
  · rw [hitems]
    exact List.Pairwise.nil
  · rw [hitems]
    exact Nat.zero_le _
  · rw [hstaging]
    exact Nat.zero_le _
  · rw [hitems]
    exact .nil

theorem tidy_step (hsound : Sound history) (hkept : Kept history) (h : Tidy config history)
    {event : Event} (hclean : event.NulFree) (hdistinct : Distinct config history (event, env)) :
    Tidy config (step config history (event, env)) := by
  cases event with
  | «open» account chat =>
    rcases open_cases env history account chat with
      ⟨-, -, history', hmessages, -, -, -, -, heq⟩ | ⟨-, history', hmessages, -, -, heq⟩
    all_goals simp only [step, heq]
    · refine h.of_clear (messages_submit _ _ _) ?_
      rw [hmessages]
      rfl
    · refine tidy_clear_all ?_ ?_
      · rw [messages_submit, hmessages]
        rfl
      · rw [messages_submit]
        rfl
  | close => exact h.of_eq rfl (Nat.zero_le _)
  | loadOlder =>
    rcases loadOlder_cases env history with ⟨-, heq⟩ | ⟨-, -, -, hasks⟩
    · simpa only [step, heq] using h
    · exact tidy_asks h hasks
  | refresh =>
    rcases refresh_cases env history with ⟨-, heq⟩ | ⟨-, -, hasks⟩
    · simpa only [step, heq] using h
    · exact tidy_asks h hasks
  | retry =>
    rcases retry_cases env history with ⟨-, heq⟩ | ⟨-, -, hasks⟩
    · simpa only [step, heq] using h
    · exact tidy_asks h hasks
  | setActive active =>
    have hactive : ∀ active, Tidy config { history with active } := fun active => h.of_eq rfl h.page
    rcases setActive_cases config env history active with
      ⟨-, heq⟩ | ⟨-, ⟨-, harms⟩ | ⟨-, -, -, -, -, hasks⟩ | ⟨-, harms⟩⟩
    · simpa only [step, heq] using h
    · exact tidy_arms (hactive false) harms
    · exact tidy_asks (hactive true) hasks
    · exact tidy_arms (hactive true) harms
  | timer =>
    rcases timerRan_cases env hsound with ⟨-, harms⟩ | ⟨-, -, _, _, _, -, harms⟩ | ⟨-, -, hasks⟩ |
      ⟨-, -, -, harms⟩ | ⟨-, -, -, -, -, hasks⟩
    · exact tidy_arms h harms
    · exact tidy_arms h harms
    · exact tidy_asks h hasks
    · exact tidy_arms h harms
    · exact tidy_asks h hasks
  | response sequence response flags => exact tidy_completed hkept h sequence hclean flags hdistinct

theorem tidy_init : Tidy config {} := tidy_clear_all rfl rfl

theorem ids_nodup (hkept : Kept history) (h : Tidy config history) :
    (history.items.map TbMessage.id).Nodup := by
  rw [List.Nodup, List.pairwise_map]
  refine h.increasing.imp_of_mem fun {a b} ha hb hlt hid => ?_
  have hparsed := (hkept.accounted.items a ha).parsed
  rw [hid, (hkept.accounted.items b hb).parsed] at hparsed
  exact hlt.ne' (Option.some.inj hparsed)

theorem listed_of_tidy (hkept : Kept history) (h : Tidy config history) : Listed config history := by
  refine ⟨h.increasing, ids_nodup hkept h, h.count, h.page, h.albums, ?_, ?_, ?_⟩
  · exact fun item hitem => (hkept.accounted.items item hitem).spells
  · rw [hkept.accounted.used, ← cost_append]
    rfl
  · intro hop hne
    rw [hkept.accounted.used, hkept.idle hop, cost_nil, Nat.add_zero]
    exact h.within.resolve_left hne

end TbHistory

/-- **The list of the history view.** In every state of a run on responses whose strings have no zero
byte, in which no page of older messages repeats one that it adds, the items are strictly increasing,
within the capacity and the budget, and accounted for. -/
theorem listed_of_run (config : TbHistoryConfig) {events : List (Event × Env)}
    (hclean : ∀ event ∈ events, event.1.NulFree)
    (hdistinct : check (step config) (Distinct config) {} events = true)
    {before : List (Event × Env)} (hbefore : before <+: events) :
    Listed config (before.foldl (step config) {}) := by
  have hstep : ∀ history, ∀ event ∈ events,
      (history.Sound ∧ history.Kept ∧ TbHistory.Tidy config history) →
      Distinct config history event → (step config history event).Sound ∧
        (step config history event).Kept ∧ TbHistory.Tidy config (step config history event) := by
    rintro history event hevent ⟨hsound, hkept, htidy⟩ hok
    have hclean' := hclean event hevent
    exact ⟨TbHistory.sound_step hsound event, TbHistory.kept_step hsound hkept event.2 hclean',
      TbHistory.tidy_step hsound hkept htidy hclean' hok⟩
  obtain ⟨-, hkept, htidy⟩ := always_of_check (step config) hstep
    ⟨TbHistory.sound_init, TbHistory.kept_init, TbHistory.tidy_init⟩ hdistinct before hbefore
  exact TbHistory.listed_of_tidy hkept htidy

attribute [local instance] neZero_two in
/-- The older page that is asked for holds the message 5, with and without repeating it. -/
def olderPage (payload : List UInt8) : List (Event × Env) :=
  olderAsked ++ [(.response 2 { outcome := .response, payload } tbFlagHasMore, sampleEnv 3)]

theorem listed_of_run_older :
    (((olderPage (bareMessage [0x35])).foldl (step sampleConfig) {}).items.map TbMessage.key = [5, 10]) ∧
      Listed sampleConfig ((olderPage (bareMessage [0x35])).foldl (step sampleConfig) {}) :=
  ⟨by decide +kernel, listed_of_run sampleConfig (by decide +kernel) (by decide +kernel)
    (List.prefix_refl _)⟩

/-- A page of older messages that repeats one is merged with both. -/
theorem repeated_message_listed_twice :
    (∀ event ∈ olderPage (bareMessage [0x35] ++ bareMessage [0x35]), event.1.NulFree) ∧
      ¬ Listed sampleConfig ((olderPage (bareMessage [0x35] ++ bareMessage [0x35])).foldl
        (step sampleConfig) {}) := by
  refine ⟨by decide +kernel, fun h => ?_⟩
  have hkeys : ((olderPage (bareMessage [0x35] ++ bareMessage [0x35])).foldl
      (step sampleConfig) {}).items.map TbMessage.key = [5, 5, 10] := by
    decide +kernel
  have hincreasing := List.pairwise_map.mpr h.increasing
  rw [hkeys] at hincreasing
  revert hincreasing
  decide

end Watch.HistoryView
