import TeleBezel.Watch.ChatsView
import TeleBezel.Watch.HistoryMoves

/-!
# The timer of the chat list

A list that is active refreshes itself by a timer, which is armed when a request is answered and when
the list is activated. The timer is spent before it submits the refresh; a submission that fails at
once is never answered.
-/

namespace Watch.ChatsView

open Word Transition HistoryView

variable {config : TbChatsConfig} {env : Env} {chats : TbChats}

namespace TbChats

structure Alike (chats chats' : TbChats) : Prop where
  load : chats'.load = chats.load
  pending : chats'.pending = chats.pending
  loaded : chats'.loaded = chats.loaded
  active : chats'.active = chats.active
  resynced : chats'.resynced = chats.resynced
  timer : chats'.timer = chats.timer
  calls : chats'.calls = chats.calls

theorem Alike.refl (chats : TbChats) : Alike chats chats := ⟨rfl, rfl, rfl, rfl, rfl, rfl, rfl⟩

theorem Alike.trans {chats' chats'' : TbChats} (h : Alike chats chats') (h' : Alike chats' chats'') :
    Alike chats chats'' :=
  ⟨h'.load.trans h.load, h'.pending.trans h.pending, h'.loaded.trans h.loaded,
    h'.active.trans h.active, h'.resynced.trans h.resynced, h'.timer.trans h.timer,
    h'.calls.trans h.calls⟩

theorem alike_append {malloc : ChatString → Bool} {record : TbChatRecord} {chats' : TbChats}
    (h : chats.append config malloc record = some chats') : Alike chats chats' := by
  unfold append at h
  split_ifs at h
  · cases h
    exact ⟨rfl, rfl, rfl, rfl, rfl, rfl, rfl⟩
  · split at h
    · cases h
    · split_ifs at h
      · cases h
        exact Alike.refl chats
      · dsimp only at h
        split_ifs at h
        · cases h
          exact ⟨rfl, rfl, rfl, rfl, rfl, rfl, rfl⟩
        · cases h
          exact ⟨rfl, rfl, rfl, rfl, rfl, rfl, rfl⟩

theorem alike_parse (payload : List UInt8) : Alike chats (chats.parse config env payload).1 := by
  unfold parse
  generalize payload.length = fuel
  generalize 0 = index
  induction fuel generalizing payload index chats with
  | zero => cases payload <;> exact Alike.refl chats
  | succ fuel ih =>
    cases payload with
    | nil => exact Alike.refl chats
    | cons c payload =>
      simp only [parseLoop]
      cases tbCodecNext (c :: payload) with
      | none => exact Alike.refl chats
      | some next =>
        obtain ⟨type, body, cursor⟩ := next
        dsimp only
        by_cases hsummary : type = tbRecordSummary
        · rw [if_pos hsummary]
          cases tbCodecSummary body with
          | none => exact Alike.refl chats
          | some summary =>
            refine Alike.trans ?_ (ih cursor (index + 1))
            exact ⟨rfl, rfl, rfl, rfl, rfl, rfl, rfl⟩
        · rw [if_neg hsummary]
          cases tbCodecChat body with
          | none => exact Alike.refl chats
          | some record =>
            dsimp only
            by_cases hchat : type ≠ tbRecordChat
            · rw [if_pos hchat]
              exact Alike.refl chats
            · rw [if_neg hchat]
              by_cases hfull : chats.tail = .full
              · rw [if_pos hfull]
                exact ih cursor (index + 1)
              · rw [if_neg hfull]
                cases happend : chats.append config (env.malloc index) record with
                | none => exact Alike.refl chats
                | some chats' => exact (alike_append happend).trans (ih cursor (index + 1))

theorem alike_begun (flags : ℕ) : Alike chats (chats.begun config flags) := by
  unfold begun clear
  dsimp only
  split_ifs <;> exact ⟨rfl, rfl, rfl, rfl, rfl, rfl, rfl⟩

/-- **Inversion of `completed`.** A call is ignored, or it ends the request with an error, or it adds
to the list, or it completes a page. -/
theorem completed_cases (chats : TbChats) (sequence : ℕ) (response : TbResponse) (flags : ℕ) :
    ((sequence ≠ chats.pending ∨ response.outcome = .cancelled) ∧
        chats.completed config env sequence response flags = chats) ∨
      (sequence = chats.pending ∧ response.outcome ≠ .cancelled ∧
        (chats.completed config env sequence response flags =
            (chats.abandon sequence response).fail config env (tbErrorFromResponse response)
              response.retryAfter ∨
          response.outcome = .response ∧ response.result = tbResultOk ∧ ∃ chats', Alike chats chats' ∧
            (chats.completed config env sequence response flags =
                (chats'.abandon sequence response).fail config env tbResultProtocolError 0 ∨
              response.final = false ∧ chats.completed config env sequence response flags = chats' ∨
              chats.completed config env sequence response flags = chats'.finish config env flags))) := by
  unfold completed
  by_cases hignored : sequence ≠ chats.pending ∨ response.outcome = .cancelled
  · exact .inl ⟨hignored, if_pos hignored⟩
  · rw [if_neg hignored]
    push Not at hignored
    refine .inr ⟨hignored.1, hignored.2, ?_⟩
    by_cases hanswer : response.outcome ≠ .response ∨ response.result ≠ tbResultOk
    · exact .inl (if_pos hanswer)
    · rw [if_neg hanswer]
      push Not at hanswer
      refine .inr ⟨hanswer.1, hanswer.2, ?_⟩
      set begun := if response.index = 0 then chats.begun config flags else chats with hbegun
      have halike : Alike chats begun := by
        rw [hbegun]
        split_ifs
        · exact alike_begun flags
        · exact Alike.refl chats
      refine ⟨(begun.parse config env response.payload).1, halike.trans (alike_parse _), ?_⟩
      dsimp only
      split_ifs with _ hfinal
      · exact .inr (.inr rfl)
      · exact .inr (.inl ⟨Bool.eq_false_of_not_eq_true hfinal, rfl⟩)
      · exact .inl rfl

/-! ### The invariant -/

/-- A request is pending exactly while something is loaded; the timer is that of the interval, and
there is none while the list is not active. -/
structure Sound (config : TbChatsConfig) (chats : TbChats) : Prop where
  idle : chats.load = .idle ↔ chats.pending = 0
  delay : ∀ setting ∈ chats.timer, setting.2 = config.refreshInterval
  inactive : chats.active = false → chats.timer = none

theorem Sound.of_alike {chats' : TbChats} (h : Sound config chats) (halike : Alike chats chats') :
    Sound config chats' := by
  refine ⟨?_, ?_, ?_⟩
  · rw [halike.load, halike.pending]
    exact h.idle
  · rw [halike.timer]
    exact h.delay
  · rw [halike.active, halike.timer]
    exact h.inactive

theorem request_fields (load : TbChatsLoad) :
    (chats.request env load).loaded = chats.loaded ∧ (chats.request env load).active = chats.active ∧
      (chats.request env load).timer = chats.timer ∧
      (chats.request env load).pending = env.submitted.sequence ∧
      (chats.request env load).load = if env.submitted.sequence = 0 then .idle else load := by
  unfold request
  split_ifs with hsequence
  · exact ⟨rfl, rfl, rfl, hsequence.symm, rfl⟩
  · exact ⟨rfl, rfl, rfl, rfl, rfl⟩

variable {load : TbChatsLoad}

theorem sound_request (hne : load ≠ .idle)
    (hdelay : ∀ setting ∈ chats.timer, setting.2 = config.refreshInterval)
    (hinactive : chats.active = false → chats.timer = none) :
    Sound config (chats.request env load) := by
  obtain ⟨-, hactive, htimer, hpending, hload⟩ := @request_fields env chats load
  refine ⟨?_, ?_, ?_⟩
  · rw [hload, hpending]
    split_ifs with hsequence
    · simp [hsequence]
    · simp [hsequence, hne]
  · rw [htimer]
    exact hdelay
  · rw [hactive, htimer]
    exact hinactive

theorem sound_schedule (hidle : chats.load = .idle ↔ chats.pending = 0) :
    Sound config (chats.schedule config env) := by
  unfold schedule
  split_ifs with hoff
  · exact ⟨hidle, nofun, fun _ => rfl⟩
  · push Not at hoff
    refine ⟨hidle, fun setting hsetting => ?_, fun hinactive => ?_⟩
    · cases Option.mem_some_iff.mp hsetting
      rfl
    · cases hoff.1.symm.trans hinactive

section

variable (h : Sound config chats)
include h

theorem sound_fail (error : ℤ) (retryAfter : ℕ) :
    Sound config (chats.fail config env error retryAfter) := by
  unfold fail
  by_cases hlost : error = tbResultCursorLost ∧ ¬ chats.resynced
  · rw [if_pos hlost]
    exact sound_request nofun h.delay h.inactive
  · rw [if_neg hlost]
    exact sound_schedule (iff_of_true rfl rfl)

theorem sound_abandon (sequence : ℕ) (response : TbResponse) :
    Sound config (chats.abandon sequence response) :=
  ⟨h.idle, h.delay, h.inactive⟩

theorem sound_completed (sequence : ℕ) (response : TbResponse) (flags : ℕ) :
    Sound config (chats.completed config env sequence response flags) := by
  rcases @completed_cases config env chats sequence response flags with
    ⟨-, heq⟩ | ⟨-, -, heq | ⟨-, -, chats', halike, heq | ⟨-, heq⟩ | heq⟩⟩
  all_goals rw [heq]
  · exact h
  · exact sound_fail (sound_abandon h _ _) _ _
  · exact sound_fail (sound_abandon (h.of_alike halike) _ _) _ _
  · exact h.of_alike halike
  · exact sound_schedule (iff_of_true rfl rfl)

theorem sound_loadMore : Sound config (chats.loadMore env) := by
  unfold loadMore
  split_ifs
  · exact h
  · split
    · exact sound_request nofun h.delay h.inactive
    · exact sound_request nofun h.delay h.inactive
    · exact sound_request nofun h.delay h.inactive
    · exact h
    · exact h

end

theorem sound_refresh (hidle : chats.load = .idle ↔ chats.pending = 0)
    (hdelay : ∀ setting ∈ chats.timer, setting.2 = config.refreshInterval)
    (hinactive : chats.active = false → chats.timer = none) :
    Sound config (chats.refresh env) := by
  unfold refresh
  split_ifs
  · exact ⟨hidle, hdelay, hinactive⟩
  · exact sound_request nofun hdelay hinactive
  · exact sound_request nofun hdelay hinactive

theorem sound_step (h : Sound config chats) (event : Event × Env) :
    Sound config (step config chats event) := by
  obtain ⟨event, env⟩ := event
  cases event with
  | «open» account list | setList list => exact sound_request nofun nofun nofun
  | close => exact ⟨iff_of_true rfl rfl, nofun, fun _ => rfl⟩
  | loadMore => exact sound_loadMore h
  | refresh => exact sound_refresh h.idle h.delay h.inactive
  | retry =>
    simp only [step, retry]
    split_ifs
    · exact h
    · exact sound_loadMore h
    · exact sound_refresh h.idle h.delay h.inactive
  | setActive active =>
    simp only [step, setActive]
    split_ifs
    · exact h
    · rename_i hactive _
      exact sound_refresh h.idle h.delay fun hfalse => nomatch hactive.symm.trans hfalse
    · exact sound_schedule h.idle
    · exact ⟨h.idle, nofun, fun _ => rfl⟩
  | timer =>
    simp only [step, timerRan]
    split_ifs
    · exact sound_schedule h.idle
    · exact sound_refresh h.idle nofun fun _ => rfl
    · exact ⟨h.idle, nofun, fun _ => rfl⟩
  | response sequence response flags => exact sound_completed h sequence response flags

theorem sound_init : Sound config ({} : TbChats) := ⟨iff_of_true rfl rfl, nofun, fun _ => rfl⟩

/-! ### The timer -/

structure Watched (config : TbChatsConfig) (chats : TbChats) : Prop where
  active : chats.active = true
  loaded : chats.loaded = true
  interval : config.refreshInterval ≠ 0

instance (chats : TbChats) : Decidable (Watched config chats) :=
  decidable_of_iff (chats.active = true ∧ chats.loaded = true ∧ config.refreshInterval ≠ 0)
    ⟨fun h => ⟨h.1, h.2.1, h.2.2⟩, fun h => ⟨h.active, h.loaded, h.interval⟩⟩

/-- The list refreshes itself. -/
def Alive (config : TbChatsConfig) (chats : TbChats) : Prop :=
  Watched config chats → chats.load = .idle →
    ∃ reading, chats.timer = some (reading, config.refreshInterval)

/-- A submission that fails at once finds the timer armed: the timer itself does not submit it, nor is
the list activated with it, and it does not take the place of a request that was submitted without the
timer. -/
def Rearmed (config : TbChatsConfig) (chats : TbChats) : Event × Env → Prop
  | (.timer, env) => Watched config chats → chats.load = .idle → env.submitted.sequence ≠ 0
  | (.setActive true, env) => Watched config { chats with active := true } → chats.account ≠ [] →
      chats.active = false → chats.load = .idle →
      0 < config.staleAfter ∧ config.staleAfter ≤ uint32 ((env.now .checked : ℤ) - chats.loadedAt) →
      env.submitted.sequence ≠ 0
  | (.response sequence response _, env) => Watched config chats → sequence = chats.pending →
      tbErrorFromResponse response = tbResultCursorLost → chats.resynced = false →
      chats.timer = none → env.submitted.sequence ≠ 0
  | _ => True

instance (chats : TbChats) : (event : Event × Env) → Decidable (Rearmed config chats event)
  | (.timer, _) => inferInstanceAs (Decidable (_ → _ → _))
  | (.setActive true, _) | (.response _ _ _, _) =>
    inferInstanceAs (Decidable (_ → _ → _ → _ → _ → _))
  | (.open _ _, _) | (.setList _, _) | (.close, _) | (.loadMore, _) | (.refresh, _) | (.retry, _)
  | (.setActive false, _) => .isTrue trivial

theorem Sound.armed (h : Sound config chats) (htimer : chats.timer ≠ none) :
    ∃ reading, chats.timer = some (reading, config.refreshInterval) := by
  obtain ⟨⟨reading, delay⟩, hsetting⟩ := Option.ne_none_iff_exists'.mp htimer
  refine ⟨reading, ?_⟩
  rw [hsetting, ← h.delay _ hsetting]

theorem alive_schedule : Alive config (chats.schedule config env) := by
  unfold schedule
  split_ifs with hoff
  · intro hwatched _
    have hon := hwatched.interval
    have hactive := hwatched.active
    have hloaded := hwatched.loaded
    simp_all
  · exact fun _ _ => ⟨_, rfl⟩

theorem alive_request_iff (hne : load ≠ .idle) :
    Alive config (chats.request env load) ↔ (Watched config chats → env.submitted.sequence = 0 →
      ∃ reading, chats.timer = some (reading, config.refreshInterval)) := by
  obtain ⟨hloaded, hactive, htimer, -, hload⟩ := @request_fields env chats load
  unfold Alive
  rw [htimer, hload]
  constructor
  · intro h hwatched hzero
    refine h ⟨hactive.trans hwatched.active, hloaded.trans hwatched.loaded, hwatched.interval⟩ ?_
    rw [if_pos hzero]
  · intro h hwatched hidle
    refine h ⟨hactive.symm.trans hwatched.active, hloaded.symm.trans hwatched.loaded,
      hwatched.interval⟩ ?_
    by_contra hsequence
    rw [if_neg hsequence] at hidle
    exact hne hidle

theorem alive_request (hne : load ≠ .idle) (h : Alive config chats)
    (hidle : chats.load = .idle) : Alive config (chats.request env load) :=
  (alive_request_iff hne).mpr fun hwatched _ => h hwatched hidle

theorem alive_loadMore (h : Alive config chats) : Alive config (chats.loadMore env) := by
  unfold loadMore
  split_ifs with hbusy
  · exact h
  · push Not at hbusy
    split
    · exact alive_request nofun h hbusy.1
    · exact alive_request nofun h hbusy.1
    · exact alive_request nofun h hbusy.1
    · exact h
    · exact h

theorem refresh_of_idle (hidle : chats.load = .idle) : ∃ load, load ≠ .idle ∧
    chats.refresh env = chats.request env load := by
  unfold refresh
  rw [if_neg (not_not_intro hidle)]
  split_ifs
  · exact ⟨.refresh, nofun, rfl⟩
  · exact ⟨.first, nofun, rfl⟩

theorem alive_refresh (h : Alive config chats) : Alive config (chats.refresh env) := by
  by_cases hidle : chats.load = .idle
  · obtain ⟨load, hne, heq⟩ := @refresh_of_idle env chats hidle
    rw [heq]
    exact alive_request hne h hidle
  · unfold refresh
    rw [if_pos hidle]
    exact h

theorem alive_fail_iff (h : Sound config chats) (error : ℤ) (retryAfter : ℕ) :
    Alive config (chats.fail config env error retryAfter) ↔
      (error = tbResultCursorLost → chats.resynced = false → Watched config chats →
        chats.timer = none → env.submitted.sequence ≠ 0) := by
  unfold fail
  by_cases hlost : error = tbResultCursorLost ∧ ¬ chats.resynced
  · rw [if_pos hlost, alive_request_iff (show TbChatsLoad.refresh ≠ .idle from nofun)]
    constructor
    · intro halive _ _ hwatched hnone hzero
      obtain ⟨reading, htimer⟩ :=
        halive ⟨hwatched.active, hwatched.loaded, hwatched.interval⟩ hzero
      cases hnone.symm.trans htimer
    · intro hcondition hwatched hzero
      refine h.armed fun hnone => ?_
      exact hcondition hlost.1 (Bool.eq_false_of_not_eq_true hlost.2)
        ⟨hwatched.active, hwatched.loaded, hwatched.interval⟩ hnone hzero
  · rw [if_neg hlost]
    refine iff_of_true alive_schedule fun herror hresynced => ?_
    exact absurd ⟨herror, by simp [hresynced]⟩ hlost

/-- **The steps that leave the timer unarmed.** They are those that spend it on a submission that fails
at once. -/
theorem alive_step_iff (hsound : Sound config chats) (h : Alive config chats) (event : Event × Env) :
    Alive config (step config chats event) ↔ Rearmed config chats event := by
  obtain ⟨event, env⟩ := event
  cases event with
  | «open» | setList =>
    refine iff_of_true ?_ trivial
    refine (@alive_request_iff config env _ .first nofun).mpr fun hwatched _ => ?_
    exact nomatch hwatched.loaded
  | close => exact iff_of_true (fun hwatched => nomatch hwatched.active) trivial
  | loadMore => exact iff_of_true (alive_loadMore h) trivial
  | refresh => exact iff_of_true (alive_refresh h) trivial
  | retry =>
    refine iff_of_true ?_ trivial
    simp only [step, retry]
    split_ifs
    · exact h
    · exact alive_loadMore h
    · exact alive_refresh h
  | setActive active =>
    simp only [step, setActive]
    by_cases haccount : chats.account = []
    · rw [if_pos haccount]
      refine iff_of_true h ?_
      cases active with
      | false => trivial
      | true => exact fun _ hother => absurd haccount hother
    rw [if_neg haccount]
    cases active with
    | false => exact iff_of_true (fun hwatched => nomatch hwatched.active) trivial
    | true =>
      rw [if_neg (by simp)]
      by_cases hstale : 0 < config.staleAfter ∧ chats.loaded ∧ chats.load = .idle ∧
          config.staleAfter ≤ uint32 ((env.now .checked : ℤ) - chats.loadedAt)
      · rw [if_pos hstale]
        obtain ⟨hafter, -, hidle, hage⟩ := hstale
        obtain ⟨load, hne, heq⟩ := @refresh_of_idle env { chats with active := true } hidle
        rw [heq, alive_request_iff hne]
        constructor
        · intro halive hwatched _ hinactive _ _ hzero
          obtain ⟨reading, htimer⟩ := halive hwatched hzero
          cases (hsound.inactive hinactive).symm.trans htimer
        · intro hcondition hwatched hzero
          cases hactive : chats.active with
          | true => exact h ⟨hactive, hwatched.loaded, hwatched.interval⟩ hidle
          | false => exact absurd hzero (hcondition hwatched haccount hactive hidle ⟨hafter, hage⟩)
      · rw [if_neg hstale]
        refine iff_of_true alive_schedule fun hwatched _ _ hidle hage => ?_
        exact absurd ⟨hage.1, hwatched.loaded, hidle, hage.2⟩ hstale
  | timer =>
    simp only [step, timerRan]
    by_cases hactive : chats.active = true
    · rw [if_neg (not_not_intro hactive)]
      by_cases hidle : chats.load = .idle
      · rw [if_neg (not_not_intro hidle)]
        obtain ⟨load, hne, heq⟩ :=
          @refresh_of_idle env { chats with refreshDue := 0, timer := none } hidle
        rw [heq, alive_request_iff hne]
        constructor
        · intro halive hwatched _ hzero
          obtain ⟨reading, htimer⟩ :=
            halive ⟨hwatched.active, hwatched.loaded, hwatched.interval⟩ hzero
          cases htimer
        · intro hcondition hwatched hzero
          exact absurd hzero
            (hcondition ⟨hwatched.active, hwatched.loaded, hwatched.interval⟩ hidle)
      · rw [if_pos hidle]
        exact iff_of_true alive_schedule fun _ hother => absurd hother hidle
    · rw [if_pos hactive]
      refine iff_of_true (fun hwatched => absurd hwatched.active hactive) ?_
      exact fun hwatched => absurd hwatched.active hactive
  | response sequence response flags =>
    simp only [step]
    rcases @completed_cases config env chats sequence response flags with
      ⟨hignored, heq⟩ | ⟨hsequence, -, heq | ⟨houtcome, hresult, chats', halike, hcases⟩⟩
    · rw [heq]
      refine iff_of_true h fun _ hsequence herror => ?_
      rcases hignored with hother | hcancelled
      · exact absurd hsequence hother
      · cases hcancelled.symm.trans (outcome_of_lost herror).1
    · rw [heq, alive_fail_iff (sound_abandon hsound sequence response)]
      constructor
      · exact fun hcondition hwatched _ herror hresynced hnone =>
          hcondition herror hresynced ⟨hwatched.active, hwatched.loaded, hwatched.interval⟩ hnone
      · exact fun hcondition herror hresynced hwatched hnone =>
          hcondition ⟨hwatched.active, hwatched.loaded, hwatched.interval⟩ hsequence herror hresynced
            hnone
    · refine iff_of_true ?_ fun _ _ herror => ?_
      · rcases hcases with heq | ⟨-, heq⟩ | heq
        all_goals rw [heq]
        · exact (alive_fail_iff (sound_abandon (hsound.of_alike halike) _ _) _ _).mpr
            fun herror => nomatch herror
        · -- the request is still pending
          intro _ hidle
          have hzero := hsound.idle.mp (halike.load.symm.trans hidle)
          exact absurd (hsequence.trans hzero) sequence.ne_zero
        · exact alive_schedule
      · cases hresult.symm.trans (outcome_of_lost herror).2

end TbChats

end Watch.ChatsView
