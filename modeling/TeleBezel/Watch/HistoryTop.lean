import TeleBezel.Watch.HistoryMoves

/-!
# The top row of the history view

A page of older messages shows the top row as loading until it is answered, and `load_older` does
nothing while it does. An answer, an error and a submission that fails at once all leave the row in
another state; closing the view and a resynchronisation whose own request cannot be submitted do not.
-/

namespace Watch.HistoryView

open Transition

variable {config : TbHistoryConfig} {env : Env} {history : TbHistory}

namespace TbHistory

/-- The top does not load for ever. -/
def Settled (history : TbHistory) : Prop :=
  history.loaded = true → history.op = .none → history.top ≠ .loading

instance (history : TbHistory) : Decidable (Settled history) :=
  inferInstanceAs (Decidable (_ → _ → _))

def Calm (history : TbHistory) : Prop :=
  history.loaded = true → history.op = .none ∨ history.op = .refresh → history.top ≠ .loading

theorem Calm.settled (h : Calm history) : Settled history :=
  fun hloaded hop => h hloaded (.inl hop)

/-- A view is left as it is while an older page is under way, unless the page is dropped: the view is
closed, or it is opened again or has lost its cursor and its first page cannot be asked for. -/
def Answered (history : TbHistory) : Event × Env → Prop
  | (.close, _) => history.loaded = true → history.top ≠ .loading
  | (.open account chat, env) => history.isOf account chat = true → history.truncated = false →
      env.submitted.sequence = 0 → history.top ≠ .loading
  | (.response sequence response _, env) => history.loaded = true → sequence = history.pending →
      tbErrorFromResponse response = tbResultCursorLost → history.resynced = false →
      env.submitted.sequence = 0 → history.top ≠ .loading
  | _ => True

instance (history : TbHistory) : (event : Event × Env) → Decidable (history.Answered event)
  | (.close, _) => inferInstanceAs (Decidable (_ → _))
  | (.open _ _, _) => inferInstanceAs (Decidable (_ → _ → _ → _))
  | (.response _ _ _, _) => inferInstanceAs (Decidable (_ → _ → _ → _ → _ → _))
  | (.loadOlder, _) | (.refresh, _) | (.retry, _) | (.setActive _, _) | (.timer, _) => .isTrue trivial

theorem calm_submit {op : TbHistoryOp} (page : PageOp) (silent : Bool) (hne : op ≠ .none)
    (h : history.loaded = true → op = .refresh ∨ env.submitted.sequence = 0 →
      history.top ≠ .loading) : Calm (history.submit env op page silent) := by
  intro hloaded hop
  rw [loaded_submit] at hloaded
  rw [op_submit] at hop
  by_cases hsequence : env.submitted.sequence = 0
  · by_cases holder : op = .older
    · subst holder
      rw [top_submit_older page silent hloaded hsequence]
      exact nofun
    · rw [top_submit_of_ne op page silent holder]
      exact h hloaded (.inr hsequence)
  · rw [if_neg hsequence] at hop
    have hrefresh : op = .refresh := hop.resolve_left hne
    subst hrefresh
    rw [top_submit_of_ne .refresh page silent nofun]
    exact h hloaded (.inl rfl)

theorem calm_asks (h : Calm history) (hop : history.op = .none) {timer : Option (ℕ × ℕ)}
    {times : List ℕ} {result : TbHistory} (hasks : Asks env history timer times result) :
    Calm result := by
  obtain ⟨history', op, page, silent, hne, -, halike, -, -, rfl⟩ := hasks
  refine calm_submit page silent hne fun hloaded _ => ?_
  rw [halike.loaded] at hloaded
  rw [halike.top]
  exact h hloaded (.inl hop)

theorem calm_of_eq {history' : TbHistory} (h : Calm history) (hloaded : history'.loaded = history.loaded)
    (hop : history'.op = history.op) (htop : history'.top = history.top) : Calm history' := by
  unfold Calm
  rw [hloaded, hop, htop]
  exact h

theorem calm_arms (h : Calm history) {times : List ℕ} {result : TbHistory}
    (harms : Arms env history times result) : Calm result := by
  obtain ⟨history', halike, -, rfl⟩ := harms
  exact calm_of_eq h halike.loaded halike.op halike.top

theorem calm_fail (error : ℤ) (retryAfter : ℕ)
    (h : history.loaded = true → error = tbResultCursorLost → history.resynced = false →
      env.submitted.sequence = 0 → history.top ≠ .loading) :
    Calm (history.fail config env error retryAfter) := by
  unfold fail
  dsimp only
  split_ifs with hlost
  · refine calm_submit _ _ nofun fun hloaded hsequence => ?_
    refine h hloaded hlost.1 (Bool.eq_false_of_not_eq_true hlost.2) (hsequence.resolve_left nofun)
  · intro hloaded _
    obtain ⟨heq, -, -, htop, -⟩ :=
      @failed_fields config env { history.clearStaging with pending := 0, op := .none, retryAfter }
        history.op error
    exact htop (heq.symm.trans hloaded)

theorem top_fail_lost {error : ℤ} (retryAfter : ℕ) (herror : error = tbResultCursorLost)
    (hresynced : history.resynced = false) :
    (history.fail config env error retryAfter).top = history.top ∧
      (history.fail config env error retryAfter).loaded = history.loaded ∧
      (history.fail config env error retryAfter).op =
        if env.submitted.sequence = 0 then .none else .first := by
  unfold fail
  rw [if_pos ⟨herror, by simp [clearStaging, hresynced]⟩]
  refine ⟨?_, ?_, ?_⟩
  · rw [top_submit_of_ne .first _ _ nofun]
    rfl
  · rw [loaded_submit]
    rfl
  · rw [op_submit]

section

variable (hsound : Sound history) (h : Calm history)
include hsound h

theorem calm_completed (sequence : ℕ+)
    (response : TbResponse) (flags : ℕ)
    (hanswered : history.loaded = true → sequence = history.pending →
      tbErrorFromResponse response = tbResultCursorLost → history.resynced = false →
      env.submitted.sequence = 0 → history.top ≠ .loading) :
    Calm (history.completed config env sequence response flags) := by
  rcases @completed_cases config env history sequence response flags with
    ⟨-, heq⟩ | ⟨hsequence, -, ⟨-, heq⟩ | ⟨-, -, ⟨-, heq⟩ | ⟨-, -, heq⟩ | ⟨-, -, -, heq⟩ |
      ⟨-, -, -, heq⟩⟩⟩
  all_goals rw [heq]
  · exact h
  · exact calm_fail _ _ fun hloaded => hanswered hloaded hsequence
  · exact calm_fail _ _ fun _ herror => nomatch herror
  · exact calm_of_eq h rfl rfl rfl
  · exact calm_fail _ _ fun _ herror => nomatch herror
  · intro _ _
    refine top_finish flags ?_
    cases hop : history.op with
    | none => exact absurd (hsound.idle.mp hop) (hsequence ▸ sequence.ne_zero)
    | first => exact .inr (.inl hop)
    | older => exact .inl hop
    | refresh =>
      refine .inr (.inr (h ?_ (.inr hop)))
      by_contra hloaded
      have hfirst := (hsound.unloaded (Bool.eq_false_of_not_eq_true hloaded)).1
      simp [hop] at hfirst

theorem calm_step {event : Event × Env}
    (hanswered : history.Answered event) : Calm (step config history event) := by
  obtain ⟨event, env⟩ := event
  cases event with
  | «open» account chat =>
    rcases open_cases env history account chat with
      ⟨hof, htruncated, history', -, -, htop, -, -, heq⟩ | ⟨-, history', -, hfalse, -, heq⟩
    all_goals simp only [step, heq]
    · refine calm_submit _ _ nofun fun _ hsequence => ?_
      rw [htop]
      exact hanswered hof htruncated (hsequence.resolve_left nofun)
    · exact calm_submit _ _ nofun fun hloaded => nomatch hfalse.symm.trans hloaded
  | close => exact fun hloaded _ => hanswered hloaded
  | loadOlder =>
    rcases loadOlder_cases env history with ⟨-, heq⟩ | ⟨-, hop, -, hasks⟩
    · simpa only [step, heq] using h
    · exact calm_asks h hop hasks
  | refresh =>
    rcases refresh_cases env history with ⟨-, heq⟩ | ⟨hop, -, hasks⟩
    · simpa only [step, heq] using h
    · exact calm_asks h hop hasks
  | retry =>
    rcases retry_cases env history with ⟨-, heq⟩ | ⟨hop, -, hasks⟩
    · simpa only [step, heq] using h
    · exact calm_asks h hop hasks
  | setActive active =>
    have hactive : ∀ active, Calm { history with active } := fun active => calm_of_eq h rfl rfl rfl
    rcases setActive_cases config env history active with
      ⟨-, heq⟩ | ⟨-, ⟨-, harms⟩ | ⟨-, -, hop, -, -, hasks⟩ | ⟨-, harms⟩⟩
    · simpa only [step, heq] using h
    · exact calm_arms (hactive false) harms
    · exact calm_asks (hactive true) hop hasks
    · exact calm_arms (hactive true) harms
  | timer =>
    rcases timerRan_cases env hsound with ⟨-, harms⟩ | ⟨-, -, _, _, _, -, harms⟩ | ⟨hop, -, hasks⟩ |
      ⟨-, -, -, harms⟩ | ⟨-, hop, -, -, -, hasks⟩
    · exact calm_arms h harms
    · exact calm_arms h harms
    · exact calm_asks h hop hasks
    · exact calm_arms h harms
    · exact calm_asks h hop hasks
  | response sequence response flags =>
    exact calm_completed hsound h sequence response flags hanswered

/-- **The steps that leave the top row loading.** They are those that drop an older page and ask for
nothing in its place. -/
theorem settled_step_iff (event : Event × Env) :
    Settled (step config history event) ↔ history.Answered event := by
  refine ⟨fun hsettled => ?_, fun hanswered => (calm_step hsound h hanswered).settled⟩
  obtain ⟨event, env⟩ := event
  cases event with
  | loadOlder | refresh | retry | setActive | timer => trivial
  | close => exact fun hloaded => hsettled hloaded rfl
  | «open» account chat =>
    intro hsame htruncated hsequence
    rcases open_cases env history account chat with
      ⟨-, -, history', -, hloaded, htop, -, -, heq⟩ | ⟨hother, -⟩
    · simp only [step, heq] at hsettled
      unfold Settled at hsettled
      rw [loaded_submit, op_submit, if_pos hsequence, top_submit_of_ne .first _ _ nofun] at hsettled
      rw [← htop]
      exact hsettled hloaded rfl
    · exact absurd ⟨hsame, htruncated⟩ hother
  | response sequence response flags =>
    intro hloaded hpending herror hresynced hsequence
    have heq : history.completed config env sequence response flags =
        (history.abandon sequence response).fail config env (tbErrorFromResponse response)
          response.retryAfter := by
      obtain ⟨houtcome, hresult⟩ := outcome_of_lost herror
      unfold completed
      rw [if_neg (by simp [hpending, houtcome]), if_pos (.inr (by rw [hresult]; exact nofun))]
    simp only [step] at hsettled
    rw [heq] at hsettled
    obtain ⟨htop, hloaded', hop⟩ :=
      @top_fail_lost config env (history.abandon sequence response) _ response.retryAfter herror
        hresynced
    rw [if_pos hsequence] at hop
    exact htop ▸ hsettled (hloaded'.trans hloaded) hop

end

end TbHistory

/-- **The top row is not stuck.** Whatever is called, and whatever is answered, the top row of a view
that is loaded and idle is never loading exactly when no step of the run drops an older page without
asking for another. -/
theorem settled_of_run (config : TbHistoryConfig) (events : List (Event × Env)) :
    (∀ before, before <+: events → (before.foldl (step config) {}).Settled) ↔
      check (step config) TbHistory.Answered {} events = true := by
  refine @always_iff_check _ _ (step config) _ _ (fun history => history.Sound ∧ history.Calm) _
    (fun history event h => TbHistory.settled_step_iff h.1 h.2 event) ?_ _ ?_ ?_ events
  · exact fun history event h hanswered =>
      ⟨TbHistory.sound_step h.1 event, TbHistory.calm_step h.1 h.2 hanswered⟩
  · exact ⟨TbHistory.sound_init, nofun⟩
  · exact nofun

/-- While the older page is under way, the window is closed; it is opened again while nothing can be
submitted, and the older page is asked for again. -/
def closedWhileLoading : List (Event × Env) :=
  olderAsked ++
    [(.close, sampleEnv 3), (.open [0x61] [0x31], sampleEnv 0), (.loadOlder, sampleEnv 3)]

/-- The top row is stuck when the view is closed while an older page is under way, and then opened
while nothing can be submitted. -/
theorem top_stuck_after_close :
    (closedWhileLoading.foldl (step sampleConfig) {}).active = true ∧
      ¬ (closedWhileLoading.foldl (step sampleConfig) {}).Settled := by
  decide +kernel

end Watch.HistoryView
