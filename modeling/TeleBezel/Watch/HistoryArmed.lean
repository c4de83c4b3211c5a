import TeleBezel.Watch.HistoryAtomic

/-!
# The timer of the history view

A view that is active refreshes itself: one of its due times is set, and the timer of its port is
armed for the earliest of them. Due times are cleared and the timer is spent before a request is
submitted, and they are set anew when it is answered; a submission that fails at once is never
answered.
-/

open List

namespace Watch.HistoryView

open Word

variable {config : TbHistoryConfig} {env : Env} {history : TbHistory}

/-- The timer is armed for the earliest of the due times that are set, counted from when it was
armed. -/
def ArmedAt : Option (ℕ × ℕ) → List ℕ → Prop
  | none, _ => False
  | some (current, delay), dues => ∃ time ∈ dues, time ≠ 0 ∧
      (∀ other ∈ dues, other ≠ 0 →
        Deadline.remaining current time ≤ Deadline.remaining current other) ∧
      delay = max 1 (Deadline.remaining current time)

instance : (timer : Option (ℕ × ℕ)) → (dues : List ℕ) → Decidable (ArmedAt timer dues)
  | none, _ => .isFalse id
  | some (_, _), _ => inferInstanceAs (Decidable (∃ time ∈ _, _ ∧ _ ∧ _))

/-! ### Evicted messages -/

namespace TbMessages

variable {messages : TbMessages}

theorem truncated_parse (malloc : ℕ → StringField → Bool) (payload : List UInt8) :
    (messages.parse config malloc payload).1.truncated = messages.truncated := by
  refine parse_induction (·.truncated = messages.truncated) payload ?_ malloc rfl
  intro record _ malloc before after hbefore hstage
  rcases stage_cases hstage with ⟨-, rfl⟩ | ⟨-, id, key, -, -, rfl | rfl⟩
  all_goals exact hbefore

theorem truncated_evictLoop (fuel : ℕ) (h : (messages.evictLoop config fuel).truncated = false) :
    messages.truncated = false := by
  induction fuel generalizing messages with
  | zero => exact h
  | succ fuel ih =>
    simp only [evictLoop] at h
    split at h
    · exact h
    · split_ifs at h
      · cases ih h
      · exact h

theorem truncated_mergeAlbums : messages.mergeAlbums.truncated = messages.truncated := by
  unfold mergeAlbums
  split <;> rfl

theorem truncated_prependStaging (h : (messages.prependStaging config).truncated = false) :
    messages.truncated = false := by
  unfold prependStaging at h
  dsimp only at h
  split_ifs at h
  · exact h
  · exact (Bool.or_eq_false_iff.mp h).1

end TbMessages

namespace TbHistory

def Armed (history : TbHistory) : Prop := ArmedAt history.timer history.dues

instance (history : TbHistory) : Decidable (Armed history) :=
  inferInstanceAs (Decidable (ArmedAt _ _))

theorem armed_arm {time : ℕ} (hmem : time ∈ history.dues) (hset : time ≠ 0) :
    Armed (history.arm env) := by
  have hdues : ∀ {time}, time ∈ history.dues.filter (· ≠ 0) ↔ time ∈ history.dues ∧ time ≠ 0 := by
    simp
  obtain ⟨hoff, hon⟩ := Deadline.delay_spec (env.now .armed) (history.dues.filter (· ≠ 0))
  unfold Armed arm
  cases hfound : Deadline.delay (env.now .armed) (history.dues.filter (· ≠ 0)) with
  | none => exact absurd (hoff.mp hfound ▸ hdues.mpr ⟨hmem, hset⟩) not_mem_nil
  | some delay =>
    obtain ⟨first, hfirst, hdelay, hleast⟩ := hon delay hfound
    exact ⟨first, (hdues.mp hfirst).1, (hdues.mp hfirst).2,
      fun other hother hother' => hleast other (hdues.mpr ⟨hother, hother'⟩), hdelay⟩

/-! ### The invariant -/

structure Watched (config : TbHistoryConfig) (history : TbHistory) : Prop where
  active : history.active = true
  loaded : history.loaded = true
  whole : history.truncated = false
  interval : config.refreshInterval ≠ 0

instance (history : TbHistory) : Decidable (Watched config history) :=
  decidable_of_iff (history.active = true ∧ history.loaded = true ∧ history.truncated = false ∧
    config.refreshInterval ≠ 0) ⟨fun h => ⟨h.1, h.2.1, h.2.2.1, h.2.2.2⟩,
      fun h => ⟨h.active, h.loaded, h.whole, h.interval⟩⟩

/-- One of the due times of a view that refreshes itself is set while it is idle, and the timer is
armed for the earliest of them. -/
def Alive (config : TbHistoryConfig) (history : TbHistory) : Prop :=
  Watched config history → history.op = .none →
    (∃ time ∈ history.dues, time ≠ 0) ∧ Armed history

/-- The periodic refresh is due, also while an older page is under way, whose end does not set it. -/
structure Live (config : TbHistoryConfig) (history : TbHistory) : Prop where
  periodic : Watched config history → history.op = .none ∨ history.op = .older →
    history.periodicDue ≠ 0
  armed : Watched config history → history.op = .none → Armed history

theorem Live.alive (h : Live config history) : Alive config history := by
  intro hwatched hop
  exact ⟨⟨_, by simp [dues], h.periodic hwatched (.inl hop)⟩, h.armed hwatched hop⟩

variable (op : TbHistoryOp)

@[simp] theorem active_submit (page : PageOp) (silent : Bool) :
    (history.submit env op page silent).active = history.active := by
  unfold submit refused clearStaging
  dsimp only
  split_ifs <;> rfl

@[simp] theorem timer_submit (page : PageOp) (silent : Bool) :
    (history.submit env op page silent).timer = history.timer := by
  unfold submit refused clearStaging
  dsimp only
  split_ifs <;> rfl

theorem periodicDue_eq {first second third : ℕ} (h : history.dues = [first, second, third]) :
    history.periodicDue = third := by
  simp only [dues, List.cons.injEq, and_true] at h
  exact h.2.2

theorem live_submit {op : TbHistoryOp} (page : PageOp) (silent : Bool) (hne : op ≠ .none)
    (holder : Watched config history → op = .older → history.periodicDue ≠ 0)
    (hfailed : Watched config history → env.submitted.sequence = 0 →
      history.periodicDue ≠ 0 ∧ Armed history) :
    Live config (history.submit env op page silent) := by
  have hperiodic : (history.submit env op page silent).periodicDue = history.periodicDue :=
    periodicDue_eq (dues_submit op page silent)
  have hback : Watched config (history.submit env op page silent) → Watched config history := by
    rintro ⟨hactive, hloaded, hwhole, hinterval⟩
    rw [active_submit] at hactive
    rw [loaded_submit] at hloaded
    rw [messages_submit] at hwhole
    exact ⟨hactive, hloaded, hwhole, hinterval⟩
  have hidle : (history.submit env op page silent).op = .none → env.submitted.sequence = 0 := by
    rw [op_submit]
    split_ifs with hsequence
    · exact fun _ => hsequence
    · exact fun h => absurd h hne
  refine ⟨fun hwatched hop => ?_, fun hwatched hop => ?_⟩
  · rw [hperiodic]
    rcases hop with hnone | hpage
    · exact (hfailed (hback hwatched) (hidle hnone)).1
    · refine holder (hback hwatched) ?_
      rw [op_submit] at hpage
      split_ifs at hpage
      exact hpage
  · unfold Armed
    rw [timer_submit, dues_submit]
    exact (hfailed (hback hwatched) (hidle hop)).2

theorem live_asks {timer : Option (ℕ × ℕ)} {first second third : ℕ} {result : TbHistory}
    (hasks : Asks env history timer [first, second, third] result)
    (holder : Watched config history → result.op = .older → third ≠ 0)
    (hfailed : Watched config history → env.submitted.sequence = 0 →
      third ≠ 0 ∧ ArmedAt timer [first, second, third]) : Live config result := by
  obtain ⟨history', op, page, silent, hne, -, halike, htimer, hdues, rfl⟩ := hasks
  have hback : Watched config history' → Watched config history := by
    rintro ⟨hactive, hloaded, hwhole, hinterval⟩
    rw [halike.active] at hactive
    rw [halike.loaded] at hloaded
    rw [halike.messages] at hwhole
    exact ⟨hactive, hloaded, hwhole, hinterval⟩
  have hperiodic := periodicDue_eq hdues
  have harmed : ArmedAt timer [first, second, third] → Armed history' := by
    unfold Armed
    rw [htimer, hdues]
    exact id
  by_cases hsequence : env.submitted.sequence = 0
  · refine live_submit page silent hne (fun hwatched _ => ?_) fun hwatched _ => ?_
    · rw [hperiodic]
      exact (hfailed (hback hwatched) hsequence).1
    · rw [hperiodic]
      exact (hfailed (hback hwatched) hsequence).imp_right harmed
  · refine live_submit page silent hne (fun hwatched hop => ?_) fun _ hzero => absurd hzero hsequence
    rw [hperiodic]
    refine holder (hback hwatched) ?_
    rw [op_submit, if_neg hsequence]
    exact hop

theorem live_arms {first second third : ℕ} {result : TbHistory}
    (harms : Arms env history [first, second, third] result)
    (h : Watched config history → history.op = .none ∨ history.op = .older → third ≠ 0) :
    Live config result := by
  obtain ⟨history', halike, hdues, rfl⟩ := harms
  have hback : Watched config (history'.arm env) → Watched config history := by
    rintro ⟨hactive, hloaded, hwhole, hinterval⟩
    refine ⟨halike.active.symm.trans hactive, halike.loaded.symm.trans hloaded, ?_, hinterval⟩
    have hwhole' : history'.truncated = false := hwhole
    rw [halike.messages] at hwhole'
    exact hwhole'
  have hop : (history'.arm env).op = history.op := halike.op
  have hperiodic : (history'.arm env).periodicDue = third := periodicDue_eq hdues
  refine ⟨fun hwatched hidle => ?_, fun hwatched hidle => ?_⟩
  · rw [hop] at hidle
    rw [hperiodic]
    exact h (hback hwatched) hidle
  · rw [hop] at hidle
    refine armed_arm ?_ (h (hback hwatched) (.inl hidle))
    rw [hdues]
    simp

theorem Live.of_unwatched (h : ¬ Watched config history) : Live config history :=
  ⟨fun hwatched => absurd hwatched h, fun hwatched => absurd hwatched h⟩

/-! ### The end of a request -/

theorem periodicDue_schedulePeriodic (h : Watched config history) :
    (history.schedulePeriodic config env).periodicDue ≠ 0 := by
  unfold schedulePeriodic
  rw [if_pos ⟨h.active, h.loaded, by simp [h.whole], h.interval⟩]
  exact atDelay_ne_zero _ _

theorem live_failed (error : ℤ) : Live config (history.failed config env op error) := by
  have heq : ∃ history' : TbHistory,
      history.failed config env op error = (history'.schedulePeriodic config env).arm env :=
    ⟨_, rfl⟩
  obtain ⟨history', heq⟩ := heq
  rw [heq]
  have hback : Watched config ((history'.schedulePeriodic config env).arm env) →
      Watched config history' := fun h => ⟨h.active, h.loaded, h.whole, h.interval⟩
  refine ⟨fun hwatched _ => ?_, fun hwatched _ => ?_⟩
  · exact periodicDue_schedulePeriodic (hback hwatched)
  · refine @armed_arm env (history'.schedulePeriodic config env)
      (history'.schedulePeriodic config env).periodicDue ?_
      (periodicDue_schedulePeriodic (hback hwatched))
    simp [dues]

theorem live_fail (error : ℤ) (retryAfter : ℕ)
    (h : error = tbResultCursorLost → history.resynced = false → Watched config history →
      env.submitted.sequence = 0 → history.periodicDue ≠ 0 ∧ Armed history) :
    Live config (history.fail config env error retryAfter) := by
  unfold fail
  dsimp only
  split_ifs with hlost
  · refine live_submit _ _ nofun (fun _ hop => nomatch hop) fun hwatched hsequence => ?_
    refine h hlost.1 (Bool.eq_false_of_not_eq_true hlost.2) ?_ hsequence
    exact ⟨hwatched.active, hwatched.loaded, hwatched.whole, hwatched.interval⟩
  · exact live_failed _ _

theorem truncated_settle (h : (history.settle config).truncated = false) :
    history.truncated = false := by
  have halbums : ((history.toTbMessages.evictNewest config).mergeAlbums).truncated = false := h
  rw [TbMessages.truncated_mergeAlbums] at halbums
  exact TbMessages.truncated_evictLoop _ halbums

theorem periodicDue_setTopFrom {flags : ℕ} {older : Bool} (h : history.periodicDue ≠ 0) :
    (history.setTopFrom config env flags older).periodicDue ≠ 0 := by
  unfold setTopFrom topOf
  dsimp only
  split_ifs <;> exact h

theorem watched_setTopFrom {flags : ℕ} {older : Bool}
    (h : Watched config (history.setTopFrom config env flags older)) : Watched config history := by
  obtain ⟨hactive, hloaded, hwhole, hinterval⟩ := h
  rw [loaded_setTopFrom] at hloaded
  rw [messages_setTopFrom] at hwhole
  refine ⟨?_, hloaded, hwhole, hinterval⟩
  rw [← hactive]
  unfold setTopFrom topOf
  dsimp only
  split_ifs <;> rfl

theorem live_settle (h : Watched config history → history.periodicDue ≠ 0) :
    Live config ((if (history.settle config).truncated then
      { history.settle config with periodicDue := 0 } else history.settle config).arm env) := by
  cases htruncated : (history.settle config).truncated with
  | true =>
    refine Live.of_unwatched fun hwatched => ?_
    cases htruncated.symm.trans hwatched.whole
  | false =>
    rw [if_neg (by simp)]
    have hperiodic : Watched config ((history.settle config).arm env) →
        (history.settle config).periodicDue ≠ 0 := fun hwatched =>
      h ⟨hwatched.active, hwatched.loaded, truncated_settle htruncated, hwatched.interval⟩
    refine ⟨fun hwatched _ => hperiodic hwatched, fun hwatched _ => ?_⟩
    refine armed_arm ?_ (hperiodic hwatched)
    simp [dues]

theorem live_finish (flags : ℕ)
    (holder : history.op = .older → Watched config history → history.periodicDue ≠ 0) :
    Live config (history.finish config env flags) := by
  unfold finish
  cases hop : history.op with
  | older =>
    refine live_settle fun hwatched => ?_
    have hmerged := watched_setTopFrom hwatched
    have hwhole : (history.toTbMessages.sortStaging.prependStaging config).truncated = false :=
      hmerged.whole
    have hbefore : history.toTbMessages.sortStaging.truncated = false :=
      TbMessages.truncated_prependStaging hwhole
    have hperiodic := holder hop ⟨hmerged.active, hmerged.loaded, hbefore, hmerged.interval⟩
    exact periodicDue_setTopFrom hperiodic
  | none | first | refresh =>
    refine live_settle fun hwatched => ?_
    refine periodicDue_schedulePeriodic ?_
    exact ⟨hwatched.active, hwatched.loaded, hwatched.whole, hwatched.interval⟩

/-! ### The steps -/

/-- A submission that fails at once finds the timer going: the timer itself does not submit it, nor is
the chat opened again or the view activated with it; an older page gives up no recheck for it; and it
does not take the place of a request that was submitted without the timer. -/
def Rearmed (config : TbHistoryConfig) (history : TbHistory) : Event × Env → Prop
  | (.timer, env) => Watched config history → history.op = .none → Due env history →
      env.submitted.sequence ≠ 0
  | (.open account chat, env) => history.isOf account chat = true → history.truncated = false →
      config.refreshInterval ≠ 0 → env.submitted.sequence ≠ 0
  | (.setActive true, env) => Watched config { history with active := true } → history.account ≠ [] →
      history.active = false → history.op = .none →
      config.refreshInterval ≤ uint32 ((env.now .checked : ℤ) - history.refreshedAt) →
      env.submitted.sequence ≠ 0
  | (.loadOlder, env) => Watched config history → history.op = .none → history.top ≠ .more →
      history.recheckDue ≠ 0 → env.submitted.sequence ≠ 0
  | (.retry, env) => Watched config history → history.op = .none → history.top = .failed →
      history.recheckDue ≠ 0 → env.submitted.sequence ≠ 0
  | (.response sequence response _, env) => Watched config history → sequence = history.pending →
      tbErrorFromResponse response = tbResultCursorLost → history.resynced = false →
      ¬ (history.periodicDue ≠ 0 ∧ Armed history) → env.submitted.sequence ≠ 0
  | _ => True

instance (history : TbHistory) : (event : Event × Env) → Decidable (Rearmed config history event)
  | (.timer, _) => inferInstanceAs (Decidable (_ → _ → _ → _))
  | (.open _ _, _) => inferInstanceAs (Decidable (_ → _ → _ → _))
  | (.setActive true, _) => inferInstanceAs (Decidable (_ → _ → _ → _ → _ → _))
  | (.loadOlder, _) | (.retry, _) => inferInstanceAs (Decidable (_ → _ → _ → _ → _))
  | (.response _ _ _, _) => inferInstanceAs (Decidable (_ → _ → _ → _ → _ → _))
  | (.close, _) | (.refresh, _) | (.setActive false, _) => .isTrue trivial

theorem live_completed (h : Live config history) (sequence : ℕ+)
    (response : TbResponse) (flags : ℕ)
    (hrearmed : Watched config history → sequence = history.pending →
      tbErrorFromResponse response = tbResultCursorLost → history.resynced = false →
      ¬ (history.periodicDue ≠ 0 ∧ Armed history) → env.submitted.sequence ≠ 0) :
    Live config (history.completed config env sequence response flags) := by
  have hwhole : (history.parse config env response.payload).1.truncated = history.truncated :=
    TbMessages.truncated_parse env.malloc response.payload
  rcases @completed_cases config env history sequence response flags with
    ⟨-, heq⟩ | ⟨hsequence, -, ⟨-, heq⟩ | ⟨-, -, ⟨-, heq⟩ | ⟨-, -, heq⟩ | ⟨-, -, -, heq⟩ |
      ⟨-, -, -, heq⟩⟩⟩
  all_goals rw [heq]
  · exact h
  · refine live_fail _ _ fun herror hresynced hwatched hzero => ?_
    by_contra hnot
    have hwatched' : Watched config history :=
      ⟨hwatched.active, hwatched.loaded, hwatched.whole, hwatched.interval⟩
    exact hrearmed hwatched' hsequence herror hresynced hnot hzero
  · exact live_fail _ _ fun herror => nomatch herror
  · -- nothing happens to the times while the page is not complete
    have hback : Watched config (history.parse config env response.payload).1 →
        Watched config history := fun hwatched =>
      ⟨hwatched.active, hwatched.loaded, hwhole ▸ hwatched.whole, hwatched.interval⟩
    exact ⟨fun hwatched => h.periodic (hback hwatched), fun hwatched => h.armed (hback hwatched)⟩
  · exact live_fail _ _ fun herror => nomatch herror
  · refine live_finish flags fun hop hwatched => ?_
    refine h.periodic ?_ (.inr hop)
    exact ⟨hwatched.active, hwatched.loaded, hwhole ▸ hwatched.whole, hwatched.interval⟩

theorem op_refresh_ne (h : history.op ≠ .older) : (history.refresh env).op ≠ .older := by
  unfold refresh
  dsimp only
  split_ifs
  · exact h
  · rw [op_submit]
    split_ifs <;> exact nofun
  · rw [op_submit]
    split_ifs <;> exact nofun

theorem op_setActive_ne (h : history.op ≠ .older) (active : Bool) :
    (history.setActive config env active).op ≠ .older := by
  unfold setActive
  dsimp only
  split_ifs
  · exact h
  · exact op_refresh_ne h
  · exact h
  · exact h

theorem live_step (hsound : Sound history) (h : Live config history) {event : Event × Env}
    (hrearmed : Rearmed config history event) : Live config (step config history event) := by
  obtain ⟨event, env⟩ := event
  cases event with
  | «open» account chat =>
    rcases open_cases env history account chat with
      ⟨hof, htruncated, history', -, -, -, -, -, heq⟩ | ⟨-, history', -, hfalse, -, heq⟩
    all_goals simp only [step, heq]
    · refine live_submit _ _ (by decide) (fun _ hop => by cases hop) fun hwatched hzero => ?_
      exact absurd hzero (hrearmed hof htruncated hwatched.interval)
    · refine Live.of_unwatched fun hwatched => ?_
      have hloaded := hwatched.loaded
      rw [loaded_submit, hfalse] at hloaded
      cases hloaded
  | close => exact Live.of_unwatched fun hwatched => Bool.noConfusion hwatched.active
  | loadOlder =>
    rcases loadOlder_cases env history with ⟨-, heq⟩ | ⟨-, hop, -, hasks⟩
    · simpa only [step, heq] using h
    · refine live_asks hasks (fun hwatched _ => h.periodic hwatched (.inl hop)) fun hwatched hzero => ?_
      refine ⟨h.periodic hwatched (.inl hop), ?_⟩
      have harmed := h.armed hwatched hop
      by_cases hkept : history.top = .more ∨ history.recheckDue = 0
      · rw [show (if history.top = .more then history.recheckDue else 0) = history.recheckDue by
          split_ifs with htop
          · rfl
          · exact (hkept.resolve_left htop).symm]
        exact harmed
      · rw [not_or] at hkept
        exact absurd hzero (hrearmed hwatched hop hkept.1 hkept.2)
  | refresh =>
    rcases refresh_cases env history with ⟨-, heq⟩ | ⟨hop, -, hasks⟩
    · simpa only [step, heq] using h
    · exact live_asks hasks (fun hwatched _ => h.periodic hwatched (.inl hop)) fun hwatched _ =>
        ⟨h.periodic hwatched (.inl hop), h.armed hwatched hop⟩
  | retry =>
    rcases retry_cases env history with ⟨-, heq⟩ | ⟨hop, -, hasks⟩
    · simpa only [step, heq] using h
    · refine live_asks hasks (fun hwatched _ => h.periodic hwatched (.inl hop)) fun hwatched hzero => ?_
      refine ⟨h.periodic hwatched (.inl hop), ?_⟩
      have harmed := h.armed hwatched hop
      by_cases hkept : history.top ≠ .failed ∨ history.recheckDue = 0
      · rw [show (if history.loaded = true ∧ history.top = .failed then 0 else history.recheckDue) =
            history.recheckDue by
          split_ifs with htop
          · exact (hkept.resolve_left (not_not_intro htop.2)).symm
          · rfl]
        exact harmed
      · rw [not_or, not_not] at hkept
        exact absurd hzero (hrearmed hwatched hop hkept.1 hkept.2)
  | setActive active =>
    rcases setActive_cases config env history active with
      ⟨-, heq⟩ | ⟨haccount, ⟨-, harms⟩ | ⟨rfl, -, hop, -, hstale, hasks⟩ | ⟨-, harms⟩⟩
    · simpa only [step, heq] using h
    · exact live_arms harms fun hwatched => Bool.noConfusion hwatched.active
    · cases hactive : history.active with
      | true =>
        have hback : Watched config { history with active := true } → Watched config history :=
          fun hwatched => ⟨hactive, hwatched.loaded, hwatched.whole, hwatched.interval⟩
        exact live_asks hasks (fun hwatched _ => h.periodic (hback hwatched) (.inl hop))
          fun hwatched _ =>
            ⟨h.periodic (hback hwatched) (.inl hop), h.armed (hback hwatched) hop⟩
      | false =>
        refine live_asks hasks (fun _ holder => ?_) fun hwatched hzero => ?_
        · exact absurd holder (op_setActive_ne (by rw [hop]; decide) true)
        · exact absurd hzero (hrearmed hwatched haccount hactive hop hstale)
    · exact live_arms harms fun hwatched _ => periodicDue_schedulePeriodic hwatched
  | timer =>
    rcases timerRan_cases env hsound with ⟨-, harms⟩ | ⟨-, -, _, _, _, hkept, harms⟩ |
      ⟨hop, hdue, hasks⟩ | ⟨-, -, hinactive, harms⟩ | ⟨hdue, hop, -, -, hne, hasks⟩
    · exact live_arms harms h.periodic
    · exact live_arms harms fun hwatched hop => hkept (h.periodic hwatched hop)
    · refine live_asks hasks (fun hwatched _ => h.periodic hwatched (.inl hop)) fun hwatched hzero => ?_
      exact absurd hzero (hrearmed hwatched hop (.inr (.inr hdue)))
    · exact live_arms harms fun hwatched => Bool.noConfusion (hinactive.symm.trans hwatched.active)
    · refine live_asks hasks (fun _ holder => ?_) fun hwatched hzero => ?_
      · exact absurd holder hne
      · exact absurd hzero (hrearmed hwatched hop hdue)
  | response sequence response flags =>
    exact live_completed h sequence response flags hrearmed

theorem live_init : Live config {} := Live.of_unwatched fun hwatched => nomatch hwatched.active

end TbHistory

end Watch.HistoryView
