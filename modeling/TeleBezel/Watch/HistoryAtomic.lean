import TeleBezel.Watch.HistoryMoves
import TeleBezel.Watch.HistoryOrder

/-!
# A request of the history view that fails leaves the messages as they were

A page is staged chunk by chunk and merged at its end only. Whatever else ends the request, the items
are those at its submission, nothing is staged, and the budget is what it was. Opening another chat, or
one whose newest messages were evicted, starts from no items at all.
-/

namespace Watch.HistoryView

open Transition

variable {config : TbHistoryConfig} {env : Env} {history : TbHistory}

namespace TbMessages

end TbMessages

namespace TbHistory

/-! ### What the operations do to the messages -/

variable (op : TbHistoryOp)

@[simp] theorem messages_submit (page : PageOp) (silent : Bool) :
    (history.submit env op page silent).toTbMessages = history.toTbMessages.clearStaging := by
  unfold submit refused clearStaging
  dsimp only
  split_ifs <;> rfl

@[simp] theorem start_submit (page : PageOp) (silent : Bool) :
    (history.submit env op page silent).start =
      (history.items, history.toTbMessages.clearStaging.used) := by
  unfold submit refused clearStaging
  dsimp only
  split_ifs <;> rfl

variable (flags : ℕ)

@[simp] theorem messages_setTopFrom (older : Bool) :
    (history.setTopFrom config env flags older).toTbMessages = history.toTbMessages := by
  unfold setTopFrom topOf
  dsimp only
  split_ifs <;> rfl

theorem messages_mergeNewest (first : Bool) :
    (history.mergeNewest config env flags first).toTbMessages =
      history.toTbMessages.mergeNewest config first := by
  unfold mergeNewest
  split_ifs
  · rw [messages_setTopFrom]
  · rfl

theorem messages_finishNewest (first : Bool) :
    (history.finishNewest config env flags first).toTbMessages =
      history.toTbMessages.mergeNewest config first := by
  rw [← @messages_mergeNewest config env history flags first]
  unfold finishNewest schedulePeriodic
  dsimp only
  split_ifs <;> rfl

theorem messages_finish :
    (history.finish config env flags).toTbMessages =
      history.toTbMessages.finished config history.op := by
  unfold finish settle arm
  cases hop : history.op with
  | older =>
    dsimp only
    split_ifs <;> (dsimp only; rw [messages_setTopFrom]; rfl)
  | none | first | refresh =>
    dsimp only
    split_ifs <;> (dsimp only; rw [messages_finishNewest]; rfl)

theorem messages_failed (error : ℤ) :
    (history.failed config env op error).toTbMessages = history.toTbMessages := by
  unfold failed schedulePeriodic arm
  dsimp only
  split_ifs <;> rfl

theorem messages_fail (error : ℤ) (retryAfter : ℕ) :
    (history.fail config env error retryAfter).toTbMessages = history.toTbMessages.clearStaging := by
  unfold fail
  dsimp only
  split_ifs
  · rw [messages_submit]
    rfl
  · rw [messages_failed]
    rfl

/-! ### The invariant -/

/-- The account of the messages, nothing staged while idle, and the items at the submission. -/
structure Kept (history : TbHistory) : Prop where
  accounted : history.toTbMessages.Accounted
  idle : history.op = .none → history.staging = []
  started : history.op ≠ .none → history.start = (history.items, cost history.items)

theorem kept_submit (h : history.toTbMessages.Accounted) {op : TbHistoryOp} (page : PageOp)
    (silent : Bool) : Kept (history.submit env op page silent) := by
  refine ⟨?_, fun _ => ?_, fun _ => ?_⟩
  · rw [messages_submit]
    exact h.clearStaging
  · rw [messages_submit]
    rfl
  · rw [start_submit, messages_submit, h.clearStaging_used]
    rfl

theorem kept_asks (h : Kept history) {timer : Option (ℕ × ℕ)} {times : List ℕ} {result : TbHistory}
    (hasks : Asks env history timer times result) : Kept result := by
  obtain ⟨history', op, page, silent, -, -, halike, -, -, rfl⟩ := hasks
  exact kept_submit (halike.messages ▸ h.accounted) page silent

theorem Kept.of_eq {history' : TbHistory} (h : Kept history)
    (hmessages : history'.toTbMessages = history.toTbMessages) (hop : history'.op = history.op)
    (hstart : history'.start = history.start) : Kept history' := by
  refine ⟨hmessages ▸ h.accounted, ?_, ?_⟩
  · rw [hop, hmessages]
    exact h.idle
  · rw [hop, hstart, hmessages]
    exact h.started

theorem kept_arms (h : Kept history) {times : List ℕ} {result : TbHistory}
    (harms : Arms env history times result) : Kept result := by
  obtain ⟨history', halike, -, rfl⟩ := harms
  exact h.of_eq halike.messages halike.op halike.start

theorem kept_fail (h : history.toTbMessages.Accounted) (error : ℤ) (retryAfter : ℕ) :
    Kept (history.fail config env error retryAfter) := by
  unfold fail
  dsimp only
  split_ifs
  · exact kept_submit h.clearStaging _ _
  · obtain ⟨-, hop, -⟩ := @failed_fields config env
      { history.clearStaging with pending := 0, op := .none, retryAfter } history.op error
    refine ⟨?_, fun _ => ?_, fun hne => absurd hop hne⟩
    · rw [messages_failed]
      exact h.clearStaging
    · rw [messages_failed]
      rfl

theorem kept_completed (hsound : Sound history) (h : Kept history) (sequence : ℕ+)
    {response : TbResponse} (hclean : ∀ record ∈ recordsOf response.payload, record.NulFree)
    (flags : ℕ) : Kept (history.completed config env sequence response flags) := by
  have hparsed : (history.parse config env response.payload).1.toTbMessages.Accounted :=
    h.accounted.parse hclean env.malloc
  rcases @completed_cases config env history sequence response flags with
    ⟨-, heq⟩ | ⟨hsequence, -, ⟨-, heq⟩ | ⟨-, -, ⟨-, heq⟩ | ⟨-, -, heq⟩ | ⟨-, -, -, heq⟩ |
      ⟨-, -, -, heq⟩⟩⟩
  all_goals rw [heq]
  · exact h
  · exact @kept_fail config env (history.abandon sequence response) h.accounted _ _
  · exact @kept_fail config env
      ((history.parse config env response.payload).1.abandon sequence response) hparsed _ _
  · -- a request is pending, so that something is under way
    have hop : history.op ≠ .none := fun hop =>
      sequence.ne_zero (hsequence.trans (hsound.idle.mp hop))
    refine ⟨hparsed, fun hnone => absurd hnone hop, fun _ => ?_⟩
    have hitems : (history.parse config env response.payload).1.items = history.items :=
      TbMessages.items_parse env.malloc response.payload
    rw [hitems]
    exact h.started hop
  · exact kept_fail hparsed.clearStaging _ _
  · obtain ⟨-, hop, -⟩ :=
      @finish_fields config env _ flags (@sound_parse config env history hsound response.payload).older
    refine ⟨?_, fun _ => ?_, fun hne => absurd hop hne⟩
    · rw [messages_finish]
      exact hparsed.finished _
    · rw [messages_finish]
      exact TbMessages.staging_finished _

end TbHistory

/-- No string of a response has a NUL. -/
def Event.NulFree : Event → Prop
  | .response _ answer _ => ∀ record ∈ recordsOf answer.payload, record.NulFree
  | _ => True

instance : (event : Event) → Decidable event.NulFree
  | .response _ answer _ =>
    inferInstanceAs (Decidable (∀ record ∈ recordsOf answer.payload, record.NulFree))
  | .open _ _ | .close | .loadOlder | .refresh | .retry | .setActive _ | .timer => .isTrue trivial

namespace TbHistory

theorem kept_step (hsound : Sound history) (h : Kept history) {event : Event} (env : Env)
    (hclean : event.NulFree) : Kept (step config history (event, env)) := by
  cases event with
  | «open» account chat =>
    rcases open_cases env history account chat with
      ⟨-, -, history', hmessages, -, -, -, -, heq⟩ | ⟨-, history', hmessages, -, -, heq⟩
    all_goals
      simp only [step, heq]
      refine kept_submit ?_ _ _
      rw [hmessages]
    · exact h.accounted.clearStaging
    · have hcleared := h.accounted.clearStaging.clearItems
      exact ⟨hcleared.items, hcleared.staging, hcleared.used⟩
  | close => exact ⟨h.accounted.clearStaging, fun _ => rfl, fun hne => absurd rfl hne⟩
  | loadOlder =>
    rcases loadOlder_cases env history with ⟨-, heq⟩ | ⟨-, -, -, hasks⟩
    · simpa only [step, heq] using h
    · exact kept_asks h hasks
  | refresh =>
    rcases refresh_cases env history with ⟨-, heq⟩ | ⟨-, -, hasks⟩
    · simpa only [step, heq] using h
    · exact kept_asks h hasks
  | retry =>
    rcases retry_cases env history with ⟨-, heq⟩ | ⟨-, -, hasks⟩
    · simpa only [step, heq] using h
    · exact kept_asks h hasks
  | setActive active =>
    have hactive : ∀ active, Kept { history with active } := fun active => h.of_eq rfl rfl rfl
    rcases setActive_cases config env history active with
      ⟨-, heq⟩ | ⟨-, ⟨-, harms⟩ | ⟨-, -, -, -, -, hasks⟩ | ⟨-, harms⟩⟩
    · simpa only [step, heq] using h
    · exact kept_arms (hactive false) harms
    · exact kept_asks (hactive true) hasks
    · exact kept_arms (hactive true) harms
  | timer =>
    rcases timerRan_cases env hsound with ⟨-, harms⟩ | ⟨-, -, _, _, _, -, harms⟩ | ⟨-, -, hasks⟩ |
      ⟨-, -, -, harms⟩ | ⟨-, -, -, -, -, hasks⟩
    · exact kept_arms h harms
    · exact kept_arms h harms
    · exact kept_asks h hasks
    · exact kept_arms h harms
    · exact kept_asks h hasks
  | response sequence response flags => exact kept_completed hsound h sequence hclean flags

theorem kept_init : Kept ({} : TbHistory) :=
  ⟨⟨nofun, nofun, rfl⟩, fun _ => rfl, fun hne => absurd rfl hne⟩

theorem kept_events {events : List (Event × Env)} (hclean : ∀ event ∈ events, event.1.NulFree) :
    Sound (events.foldl (step config) {}) ∧ Kept (events.foldl (step config) {}) := by
  induction events using List.reverseRecOn with
  | nil => exact ⟨sound_init, kept_init⟩
  | append_singleton events event ih =>
    obtain ⟨hsound, hkept⟩ := ih fun other hother => hclean other (List.mem_append_left _ hother)
    rw [List.foldl_append]
    exact ⟨sound_step hsound event, kept_step hsound hkept event.2 (hclean event (by simp))⟩

/-! ### The end of a request -/

/-- The event ends the request that is pending. -/
def Ends (config : TbHistoryConfig) (history : TbHistory) : Event × Env → Prop
  | (.open _ _, _) | (.close, _) => True
  | (.response sequence response _, env) =>
    sequence = history.pending ∧ response.outcome ≠ .cancelled ∧
      ¬ (response.outcome = .response ∧ response.result = tbResultOk ∧ response.final = false ∧
        (history.parse config env response.payload).2 = true)
  | _ => False

/-- It ends it with a page. -/
def Completes (config : TbHistoryConfig) (history : TbHistory) : Event × Env → Prop
  | (.response sequence response _, env) =>
    sequence = history.pending ∧ response.outcome = .response ∧ response.result = tbResultOk ∧
      response.final = true ∧ (history.parse config env response.payload).2 = true ∧
      (history.parse config env response.payload).1.stagingInvalid = false
  | _ => False

def Replaces (history : TbHistory) : Event × Env → Prop
  | (.open account chat, _) => ¬ (history.isOf account chat = true ∧ history.truncated = false)
  | _ => False

/-- The messages are as the request found them. -/
structure Restored (start : List TbMessage × ℕ) (history : TbHistory) : Prop where
  items : history.items = start.1
  staging : history.staging = []
  used : history.used = start.2

theorem restored_of_clear (h : Kept history) (hop : history.op ≠ .none) {history' : TbHistory}
    {messages : TbMessages} (hmessages : history'.toTbMessages = messages.clearStaging)
    (haccounted : messages.Accounted) (hitems : messages.items = history.items) :
    Restored history.start history' := by
  rw [h.started hop]
  refine ⟨?_, ?_, ?_⟩
  · rw [hmessages]
    exact hitems
  · rw [hmessages]
    rfl
  · rw [hmessages, haccounted.clearStaging_used, hitems]

theorem restored_step (h : Kept history) (hop : history.op ≠ .none)
    {event : Event} (hclean : event.NulFree) (hends : Ends config history (event, env))
    (hcompletes : ¬ Completes config history (event, env)) (hreplaces : ¬ Replaces history (event, env)) :
    Restored history.start (step config history (event, env)) := by
  cases event with
  | close => exact restored_of_clear h hop rfl h.accounted rfl
  | «open» account chat =>
    rcases open_cases env history account chat with
      ⟨-, -, history', hmessages, -, -, -, -, heq⟩ | ⟨hother, -⟩
    · simp only [step, heq]
      refine restored_of_clear h hop (messages_submit _ _ _) ?_ ?_
      · rw [hmessages]
        exact h.accounted.clearStaging
      · rw [hmessages]
        rfl
    · exact absurd hother hreplaces
  | loadOlder | refresh | retry | setActive | timer => cases hends
  | response sequence response flags =>
    obtain ⟨hsequence, houtcome, hpartial⟩ := hends
    have hparsed : (history.parse config env response.payload).1.toTbMessages.Accounted :=
      h.accounted.parse hclean env.malloc
    have hitems : (history.parse config env response.payload).1.items = history.items :=
      TbMessages.items_parse env.malloc response.payload
    simp only [step]
    rcases @completed_cases config env history sequence response flags with
      ⟨hignored, -⟩ | ⟨-, -, ⟨-, heq⟩ | ⟨hresponse, hok, ⟨-, heq⟩ | ⟨hparse, hfinal, -⟩ |
        ⟨-, -, -, heq⟩ | ⟨hparse, hfinal, hvalid, -⟩⟩⟩
    · exact absurd hignored (by simp [hsequence, houtcome])
    · rw [heq]
      exact restored_of_clear h hop (messages_fail _ _) h.accounted rfl
    · rw [heq]
      exact restored_of_clear h hop (messages_fail _ _) hparsed hitems
    · exact absurd ⟨hresponse, hok, hfinal, hparse⟩ hpartial
    · rw [heq]
      exact restored_of_clear h hop (messages_fail _ _) hparsed.clearStaging hitems
    · exact absurd ⟨hsequence, hresponse, hok, hfinal, hparse, hvalid⟩ hcompletes

variable {event : Event × Env}

theorem replaced_step (h : Kept history) (hreplaces : Replaces history event) :
    Restored ([], 0) (step config history event) := by
  obtain ⟨event, env⟩ := event
  cases event with
  | «open» account chat =>
    rcases open_cases env history account chat with
      ⟨hof, htruncated, -⟩ | ⟨-, history', hmessages, -, -, heq⟩
    · exact absurd ⟨hof, htruncated⟩ hreplaces
    · have hused := h.accounted.clearStaging.clearItems.used
      simp only [step, heq]
      refine ⟨?_, ?_, ?_⟩
      · rw [messages_submit, hmessages]
        rfl
      · rw [messages_submit, hmessages]
        rfl
      · rw [messages_submit, hmessages]
        exact hused
  | close | loadOlder | refresh | retry | setActive | timer | response => cases hreplaces

theorem underWay_step (hsound : Sound history) (hop : history.op ≠ .none)
    (hends : ¬ Ends config history event) :
    (step config history event).pending = history.pending ∧
      (step config history event).start = history.start ∧
      (step config history event).items = history.items := by
  have hunchanged : ∀ {result : TbHistory}, result = history → result.pending = history.pending ∧
      result.start = history.start ∧ result.items = history.items := by
    rintro _ rfl
    exact ⟨rfl, rfl, rfl⟩
  have harmed : ∀ {history' : TbHistory} {times : List ℕ} {result : TbHistory},
      Arms event.2 history' times result → result.pending = history'.pending ∧
        result.start = history'.start ∧ result.items = history'.items := by
    rintro history' times _ ⟨armed, halike, -, rfl⟩
    exact ⟨halike.pending, halike.start, congrArg TbMessages.items halike.messages⟩
  obtain ⟨event, env⟩ := event
  cases event with
  | «open» | close => exact absurd trivial hends
  | loadOlder =>
    rcases loadOlder_cases env history with ⟨-, heq⟩ | ⟨-, hnone, -⟩
    · exact hunchanged heq
    · exact absurd hnone hop
  | refresh =>
    rcases refresh_cases env history with ⟨-, heq⟩ | ⟨hnone, -⟩
    · exact hunchanged heq
    · exact absurd hnone hop
  | retry =>
    rcases retry_cases env history with ⟨-, heq⟩ | ⟨hnone, -⟩
    · exact hunchanged heq
    · exact absurd hnone hop
  | setActive active =>
    rcases setActive_cases config env history active with
      ⟨-, heq⟩ | ⟨-, ⟨-, harms⟩ | ⟨-, -, hnone, -⟩ | ⟨-, harms⟩⟩
    · exact hunchanged heq
    · exact @harmed { history with active := false } _ _ harms
    · exact absurd hnone hop
    · exact @harmed { history with active := true } _ _ harms
  | timer =>
    rcases timerRan_cases env hsound with ⟨-, harms⟩ | ⟨-, -, _, _, _, -, harms⟩ | ⟨hnone, -⟩ | ⟨-, hnone, -⟩ |
      ⟨-, hnone, -⟩
    · exact harmed harms
    · exact harmed harms
    · exact absurd hnone hop
    · exact absurd hnone hop
    · exact absurd hnone hop
  | response sequence response flags =>
    rcases @completed_cases config env history sequence response flags with
      ⟨-, heq⟩ | ⟨hsequence, houtcome, ⟨herror, -⟩ | ⟨hresponse, hok, ⟨hparse, -⟩ | ⟨-, -, heq⟩ |
        ⟨-, hfinal, -⟩ | ⟨-, hfinal, -⟩⟩⟩
    · exact hunchanged heq
    · exact absurd ⟨hsequence, houtcome, fun h => herror ⟨h.1, h.2.1⟩⟩ hends
    · refine absurd ⟨hsequence, houtcome, fun h => ?_⟩ hends
      cases hparse.symm.trans h.2.2.2
    · simp only [step]
      rw [heq]
      exact ⟨rfl, rfl, TbMessages.items_parse env.malloc response.payload⟩
    all_goals
      refine absurd ⟨hsequence, houtcome, fun h => ?_⟩ hends
      cases hfinal.symm.trans h.2.2.1

structure Fresh (history : TbHistory) : Prop where
  start : history.start = (history.items, history.used)
  staging : history.staging = []

theorem fresh_submit (op : TbHistoryOp) (page : PageOp) (silent : Bool) :
    Fresh (history.submit env op page silent) := by
  refine ⟨?_, ?_⟩
  · rw [start_submit, messages_submit]
    rfl
  · rw [messages_submit]
    rfl

theorem fresh_fail (error : ℤ) (retryAfter : ℕ)
    (hpending : (history.fail config env error retryAfter).pending ≠ 0) :
    Fresh (history.fail config env error retryAfter) := by
  unfold fail at hpending ⊢
  dsimp only at hpending ⊢
  split_ifs at hpending ⊢
  · exact fresh_submit _ _ _
  · exact absurd (@failed_fields config env
      { history.clearStaging with pending := 0, op := .none, retryAfter } history.op error).2.2.1 hpending

theorem fresh_step (hsound : Sound history)
    (hidle : history.pending = 0 ∨ Ends config history event)
    (hpending : (step config history event).pending ≠ 0) : Fresh (step config history event) := by
  have hunchanged : ¬ Ends config history event → step config history event = history →
      Fresh (step config history event) := fun hends heq =>
    absurd ((congrArg TbHistory.pending heq).trans (hidle.resolve_right hends)) hpending
  have hasked : ∀ {history' : TbHistory} {timer : Option (ℕ × ℕ)} {times : List ℕ}
      {result : TbHistory}, Asks event.2 history' timer times result → Fresh result := by
    rintro history' timer times _ ⟨asked, op, page, silent, -, -, -, -, -, rfl⟩
    exact fresh_submit op page silent
  have harmed : ∀ {history' : TbHistory} {times : List ℕ}, ¬ Ends config history event →
      history'.pending = history.pending → Arms event.2 history' times (step config history event) →
      Fresh (step config history event) := by
    rintro history' times hends hsame ⟨armed, halike, -, heq⟩
    refine absurd ?_ hpending
    rw [heq]
    exact halike.pending.trans (hsame.trans (hidle.resolve_right hends))
  obtain ⟨event, env⟩ := event
  cases event with
  | «open» account chat =>
    rcases open_cases env history account chat with
      ⟨-, -, history', -, -, -, -, -, heq⟩ | ⟨-, history', -, -, -, heq⟩
    all_goals
      simp only [step, heq]
      exact fresh_submit _ _ _
  | close => exact absurd rfl hpending
  | loadOlder =>
    rcases loadOlder_cases env history with ⟨-, heq⟩ | ⟨-, -, -, hasks⟩
    · exact hunchanged nofun heq
    · exact hasked hasks
  | refresh =>
    rcases refresh_cases env history with ⟨-, heq⟩ | ⟨-, -, hasks⟩
    · exact hunchanged nofun heq
    · exact hasked hasks
  | retry =>
    rcases retry_cases env history with ⟨-, heq⟩ | ⟨-, -, hasks⟩
    · exact hunchanged nofun heq
    · exact hasked hasks
  | setActive active =>
    rcases setActive_cases config env history active with
      ⟨-, heq⟩ | ⟨-, ⟨-, harms⟩ | ⟨-, -, -, -, -, hasks⟩ | ⟨-, harms⟩⟩
    · exact hunchanged nofun heq
    · exact @harmed { history with active := false } _ nofun rfl harms
    · exact hasked hasks
    · exact @harmed { history with active := true } _ nofun rfl harms
  | timer =>
    rcases timerRan_cases env hsound with ⟨-, harms⟩ | ⟨-, -, _, _, _, -, harms⟩ | ⟨-, -, hasks⟩ |
      ⟨-, -, -, harms⟩ | ⟨-, -, -, -, -, hasks⟩
    · exact harmed nofun rfl harms
    · exact harmed nofun rfl harms
    · exact hasked hasks
    · exact harmed nofun rfl harms
    · exact hasked hasks
  | response sequence response flags =>
    simp only [step] at hpending ⊢
    rcases @completed_cases config env history sequence response flags with
      ⟨hignored, heq⟩ | ⟨hsequence, -, ⟨-, heq⟩ | ⟨hresponse, hok, ⟨-, heq⟩ | ⟨hparse, hfinal, -⟩ |
        ⟨-, -, -, heq⟩ | ⟨-, -, -, heq⟩⟩⟩
    · refine hunchanged (fun hends => ?_) heq
      rcases hignored with hother | hcancelled
      · exact hother hends.1
      · exact hends.2.1 hcancelled
    · rw [heq] at hpending ⊢
      exact fresh_fail _ _ hpending
    · rw [heq] at hpending ⊢
      exact fresh_fail _ _ hpending
    · rcases hidle with hzero | hends
      · exact absurd (hsequence.trans hzero) sequence.ne_zero
      · exact absurd ⟨hresponse, hok, hfinal, hparse⟩ hends.2.2
    · rw [heq] at hpending ⊢
      exact fresh_fail _ _ hpending
    · rw [heq] at hpending
      refine absurd (@finish_fields config env _ flags ?_).2.2 hpending
      exact (@sound_parse config env history hsound response.payload).older

/-- A request does all or nothing. -/
structure Atomic (config : TbHistoryConfig) (history : TbHistory) (event : Event × Env)
    (history' : TbHistory) : Prop where
  /-- A request starts from the messages that it records. -/
  submitted : history.pending = 0 ∨ Ends config history event → history'.pending ≠ 0 → Fresh history'
  /-- Until it ends, it stays pending, and nothing happens to the items. -/
  underWay : history.pending ≠ 0 → ¬ Ends config history event →
    history'.pending = history.pending ∧ history'.start = history.start ∧
      history'.items = history.start.1
  /-- When it ends otherwise than by a complete page, the messages are as it started from them. -/
  failed : history.pending ≠ 0 → Ends config history event → ¬ Completes config history event →
    ¬ Replaces history event → Restored history.start history'
  /-- Another chat starts from no messages. -/
  replaced : history.pending ≠ 0 → Replaces history event → Restored ([], 0) history'

end TbHistory

/-- **A request that fails leaves the messages as they were.** In every run on responses whose strings
have no zero byte, whatever ends a request but a complete page that was staged in full: unless another
chat is opened, the items, the staged page and the budget are those at its submission. -/
theorem atomic_of_run (config : TbHistoryConfig) (before : List (Event × Env)) (event : Event × Env)
    (hclean : ∀ other ∈ before ++ [event], other.1.NulFree) :
    TbHistory.Atomic config (before.foldl (step config) {}) event
      ((before ++ [event]).foldl (step config) {}) := by
  obtain ⟨hsound, hkept⟩ := @TbHistory.kept_events config before fun other hother =>
    hclean other (List.mem_append_left _ hother)
  have hop : (before.foldl (step config) {}).pending ≠ 0 →
      (before.foldl (step config) {}).op ≠ .none := mt hsound.idle.mp
  rw [List.foldl_append]
  constructor
  · exact TbHistory.fresh_step hsound
  · intro hpending hends
    obtain ⟨hpending', hstart, hitems⟩ := TbHistory.underWay_step hsound (hop hpending) hends
    refine ⟨hpending', hstart, hitems.trans ?_⟩
    rw [hkept.started (hop hpending)]
  · intro hpending hends hcompletes hreplaces
    exact TbHistory.restored_step hkept (hop hpending) (hclean event (by simp)) hends hcompletes
      hreplaces
  · exact fun _ hreplaces => TbHistory.replaced_step hkept hreplaces

/-- A chunk with the message 5 is staged, and the rest of the page is refused. -/
theorem atomic_of_run_refused :
    let staged : Event × Env := (.response 2
      { outcome := .response, payload := bareMessage [0x35], final := false } 0, sampleEnv 3)
    let refused : Event × Env := (.response 2 { outcome := .response, result := 5 } 0, sampleEnv 3)
    (((olderAsked ++ [staged]).foldl (step sampleConfig) {}).staging.map TbMessage.key = [5]) ∧
      TbHistory.Restored ((olderAsked ++ [staged]).foldl (step sampleConfig) {}).start
        ((olderAsked ++ [staged] ++ [refused]).foldl (step sampleConfig) {}) := by
  intro staged refused
  refine ⟨by decide +kernel, ?_⟩
  have hatomic := atomic_of_run sampleConfig (olderAsked ++ [staged]) refused (by decide +kernel)
  refine hatomic.failed (by decide +kernel) ?_ ?_ nofun
  · exact ⟨by decide +kernel, nofun, fun h => nomatch h.2.2.1⟩
  · exact fun h => nomatch h.2.2.1

/-- Another chat that is opened while an older page is under way starts from no messages. -/
theorem items_lost_to_another_chat :
    let history := olderAsked.foldl (step sampleConfig) {}
    let opened : Event × Env := (.open [0x61] [0x32], sampleEnv 3)
    history.pending ≠ 0 ∧ TbHistory.Ends sampleConfig history opened ∧
      ¬ TbHistory.Completes sampleConfig history opened ∧
      ¬ TbHistory.Restored history.start (step sampleConfig history opened) := by
  refine ⟨by decide +kernel, trivial, nofun, fun h => ?_⟩
  have hlength := congrArg List.length h.items
  revert hlength
  decide +kernel

end Watch.HistoryView
