import TeleBezel.Watch.HistoryMoves

/-!
# How many requests one action of the user leads to

With the periodic refresh disabled the history view asks again by itself for three reasons: a page
that is still being refreshed is followed up at most twice, a wait for older messages is rechecked at
most twice, and a lost cursor makes the view start over. Starting over begins the other two anew, and
an answer allows it again.
-/

open List

namespace Watch.HistoryView

open Transition

variable {config : TbHistoryConfig} {env : Env} {history : TbHistory}

namespace TbHistory

def asked (history : TbHistory) : ℕ :=
  history.calls.count (.submit ())

/-- The follow-ups that can still come: the one that is due, and those that answers may bring. -/
def followupsLeft (history : TbHistory) : ℕ :=
  (if history.followupDue = 0 then 0 else 1) + (2 - history.followups)

/-- The rechecks that can still come. Only the answer to a request for older messages brings more. -/
def rechecksLeft (history : TbHistory) : ℕ :=
  if history.recheckDue = 0 ∧ history.op ≠ .older then 0
  else (if history.recheckDue = 0 then 0 else 1) + (2 - history.rechecks)

def left (history : TbHistory) : ℕ :=
  history.followupsLeft + history.rechecksLeft

structure Rechecked (history : TbHistory) : Prop where
  periodic : history.periodicDue = 0
  counted : history.recheckDue ≠ 0 → 1 ≤ history.rechecks

theorem Rechecked.left_le (h : Rechecked history) : history.left ≤ 5 := by
  have hcounted := h.counted
  unfold left followupsLeft rechecksLeft
  split_ifs <;> omega

/-! ### What a submission counts -/

section Submit

variable (op : TbHistoryOp) (page : PageOp) (silent : Bool)

theorem asked_submit : (history.submit env op page silent).asked = history.asked + 1 := by
  have hcalls : (history.submit env op page silent).calls =
      history.calls ++ cancelled history.pending ++ [.submit ()] := by
    unfold submit refused clearStaging
    dsimp only
    split_ifs <;> rfl
  have hcancelled : (cancelled history.pending : List (RequestCall Unit)).count (.submit ()) = 0 := by
    unfold cancelled
    split_ifs <;> rfl
  rw [asked, hcalls, count_append, count_append, hcancelled]
  rfl

theorem counters_submit : (history.submit env op page silent).followups = history.followups ∧
    (history.submit env op page silent).rechecks = history.rechecks ∧
    (history.submit env op page silent).followupDue = history.followupDue ∧
    (history.submit env op page silent).recheckDue = history.recheckDue ∧
    (history.submit env op page silent).periodicDue = history.periodicDue := by
  unfold submit refused clearStaging
  dsimp only
  split_ifs <;> exact ⟨rfl, rfl, rfl, rfl, rfl⟩

theorem rechecked_submit (h : Rechecked history) : Rechecked (history.submit env op page silent) := by
  obtain ⟨-, hrechecks, -, hrecheck, hperiodic⟩ := @counters_submit env history op page silent
  constructor
  · rw [hperiodic]
    exact h.periodic
  · rw [hrecheck, hrechecks]
    exact h.counted

theorem left_submit : (history.submit env op page silent).left ≤
    history.followupsLeft + (if history.recheckDue = 0 ∧ op ≠ .older then 0
      else (if history.recheckDue = 0 then 0 else 1) + (2 - history.rechecks)) := by
  obtain ⟨hfollowups, hrechecks, hfollowup, hrecheck, -⟩ := @counters_submit env history op page silent
  unfold left followupsLeft rechecksLeft
  rw [hfollowups, hrechecks, hfollowup, hrecheck, op_submit]
  split_ifs <;> simp_all

end Submit

/-! ### What an answer counts -/

variable (flags : ℕ)

theorem setTopFrom_counters (older : Bool) :
    let after := history.setTopFrom config env flags older
    after.followups = history.followups ∧ after.followupDue = history.followupDue ∧
      after.periodicDue = history.periodicDue ∧ after.calls = history.calls ∧
      after.followupChain = history.followupChain ∧
      ((after.rechecks = history.rechecks ∧ after.recheckDue = history.recheckDue) ∨
        after.recheckDue = 0 ∨
        (older = true ∧ history.rechecks < 2 ∧ after.recheckDue ≠ 0 ∧
          after.rechecks = history.rechecks + 1)) := by
  unfold setTopFrom topOf
  dsimp only
  split_ifs <;> simp_all [atDelay_ne_zero]

structure Fewer (history history' : TbHistory) : Prop where
  asked : history'.asked = history.asked
  left : history'.left ≤ history.left
  rechecked : Rechecked history → Rechecked history'

theorem Fewer.refl (history : TbHistory) : Fewer history history :=
  ⟨rfl, Nat.le_refl _, id⟩

theorem mergeNewest_counters (first : Bool) :
    let after := history.mergeNewest config env flags first
    after.followups = history.followups ∧ after.followupDue = history.followupDue ∧
      after.periodicDue = history.periodicDue ∧ after.calls = history.calls ∧
      ((after.rechecks = history.rechecks ∧ after.recheckDue = history.recheckDue) ∨
        after.recheckDue = 0) := by
  unfold mergeNewest
  split_ifs with hfirst
  · obtain ⟨hfollowups, hfollowup, hperiodic, hcalls, -, hrecheck⟩ := @setTopFrom_counters config env
      { history with toTbMessages := history.toTbMessages.mergeNewest config first } flags false
    refine ⟨hfollowups, hfollowup, hperiodic, hcalls, ?_⟩
    rcases hrecheck with hsame | hnone | ⟨hfalse, -⟩
    · exact .inl hsame
    · exact .inr hnone
    · cases hfalse
  · exact ⟨rfl, rfl, rfl, rfl, .inl ⟨rfl, rfl⟩⟩

theorem finishNewest_counters (first : Bool) (hinterval : config.refreshInterval = 0) :
    let after := history.finishNewest config env flags first
    after.followupsLeft ≤ history.followupsLeft ∧ after.periodicDue = 0 ∧
      after.calls = history.calls ∧
      ((after.rechecks = history.rechecks ∧ after.recheckDue = history.recheckDue) ∨
        after.recheckDue = 0) := by
  obtain ⟨hfollowups, hfollowup, -, hcalls, hrecheck⟩ :=
    @mergeNewest_counters config env history flags first
  unfold finishNewest schedulePeriodic followupsLeft
  dsimp only
  split_ifs <;> simp_all [atDelay_ne_zero] <;> omega

theorem rechecksLeft_le {after : TbHistory} (hbefore : history.op ≠ .older) (hafter : after.op = .none)
    (h : (after.rechecks = history.rechecks ∧ after.recheckDue = history.recheckDue) ∨
      after.recheckDue = 0) : after.rechecksLeft ≤ history.rechecksLeft := by
  unfold rechecksLeft
  rw [hafter]
  rcases h with ⟨hcount, hdue⟩ | hnone
  · simp [hcount, hdue, hbefore]
  · simp [hnone]

theorem rechecksLeft_le_older {older : Bool} {after : TbHistory} (hbefore : history.op = .older)
    (hafter : after.op = .none)
    (h : (after.rechecks = history.rechecks ∧ after.recheckDue = history.recheckDue) ∨
      after.recheckDue = 0 ∨ (older = true ∧ history.rechecks < 2 ∧ after.recheckDue ≠ 0 ∧
        after.rechecks = history.rechecks + 1)) : after.rechecksLeft ≤ history.rechecksLeft := by
  unfold rechecksLeft
  rw [hafter, hbefore]
  rcases h with ⟨hcount, hdue⟩ | hnone | ⟨-, hless, hset, hcount⟩
  · rw [hcount, hdue]
    split_ifs <;> simp_all
  · simp [hnone]
  · rw [hcount, if_neg (fun hand => hset hand.1), if_neg hset, if_neg (fun hand => hand.2 rfl)]
    omega

theorem finish_counters (hinterval : config.refreshInterval = 0)
    (h : Rechecked history) : Fewer history (history.finish config env flags) := by
  have hsettle : ∀ history' : TbHistory, history'.op = .none → history'.calls = history.calls →
      history'.followupsLeft ≤ history.followupsLeft → history'.rechecksLeft ≤ history.rechecksLeft →
      Rechecked history' →
      Fewer history ((if (history'.settle config).truncated = true then
        { history'.settle config with periodicDue := 0 } else history'.settle config).arm env) := by
    intro history' hop hcalls hfollowups hrechecks hrechecked
    constructor
    · unfold asked
      split_ifs <;> exact congrArg _ hcalls
    · split_ifs <;> exact Nat.add_le_add hfollowups hrechecks
    · intro _
      split_ifs
      · exact ⟨rfl, hrechecked.counted⟩
      · exact ⟨hrechecked.periodic, hrechecked.counted⟩
  unfold finish
  cases hop : history.op with
  | older =>
    obtain ⟨hfollowups, hfollowup, hperiodic, hcalls, -, hrecheck⟩ := @setTopFrom_counters config env
      { history with
        toTbMessages := history.toTbMessages.sortStaging.prependStaging config
        pending := 0
        op := .none
        error := tbErrorNone
        resynced := false
        connectionNotReady := flags &&& tbFlagConnectionNotReady ≠ 0 } flags true
    have hcounted := h.counted
    have hzero := h.periodic
    refine hsettle _ (by rw [op_setTopFrom]) hcalls ?_ ?_ ⟨hperiodic.trans h.periodic, ?_⟩
    · unfold followupsLeft
      rw [hfollowups, hfollowup]
    · exact rechecksLeft_le_older hop (by rw [op_setTopFrom]) hrecheck
    · rcases hrecheck with ⟨hcount, hdue⟩ | hnone | ⟨-, hless, hset, hcount⟩
      · rw [hcount, hdue]
        exact h.counted
      · exact fun hset => absurd hnone hset
      · rw [hcount]
        omega
  | none | first | refresh =>
    all_goals
      obtain ⟨hfollowups, hperiodic, hcalls, hrecheck⟩ := @finishNewest_counters config env
        { history with
          toTbMessages := history.toTbMessages.sortStaging
          pending := 0
          op := .none
          error := tbErrorNone
          resynced := false
          connectionNotReady := flags &&& tbFlagConnectionNotReady ≠ 0 } flags _ hinterval
      refine hsettle _ (by rw [(finishNewest_fields _ _).2.1]) hcalls hfollowups ?_ ⟨hperiodic, ?_⟩
      · exact rechecksLeft_le (by rw [hop]; exact nofun) (finishNewest_fields _ _).2.1 hrecheck
      · rcases hrecheck with ⟨hcount, hdue⟩ | hnone
        · rw [hcount, hdue]
          exact h.counted
        · exact fun hset => absurd hnone hset

/-! ### What the end of a request counts -/

theorem periodicDue_of_disabled (history : TbHistory) (hinterval : config.refreshInterval = 0) :
    (history.schedulePeriodic config env).periodicDue = 0 := by
  exact if_neg fun h => h.2.2.2 hinterval

theorem failed_counters (op : TbHistoryOp) (error : ℤ) :
    let after := history.failed config env op error
    after.followups = history.followups ∧ after.rechecks = history.rechecks ∧
      after.followupDue = history.followupDue ∧ after.recheckDue = history.recheckDue ∧
      after.op = history.op ∧ after.calls = history.calls := by
  unfold failed schedulePeriodic arm
  dsimp only
  split_ifs <;> exact ⟨rfl, rfl, rfl, rfl, rfl, rfl⟩

theorem fewer_failed (op : TbHistoryOp) (error : ℤ) (hinterval : config.refreshInterval = 0) :
    Fewer history (history.failed config env op error) := by
  obtain ⟨hfollowups, hrechecks, hfollowup, hrecheck, hop, hcalls⟩ :=
    @failed_counters config env history op error
  constructor
  · rw [asked, hcalls, asked]
  · unfold left followupsLeft rechecksLeft
    rw [hfollowups, hrechecks, hfollowup, hrecheck, hop]
  · intro h
    refine ⟨periodicDue_of_disabled _ hinterval, ?_⟩
    rw [hrecheck, hrechecks]
    exact h.counted

theorem fail_counters (error : ℤ) (retryAfter : ℕ) (hinterval : config.refreshInterval = 0) :
    (error = tbResultCursorLost ∧ history.resynced = false ∧
        (history.fail config env error retryAfter).asked = history.asked + 1 ∧
        (history.recheckDue = 0 → (history.fail config env error retryAfter).left ≤ 3) ∧
        (history.recheckDue = 0 → Rechecked history →
          Rechecked (history.fail config env error retryAfter))) ∨
      (¬ (error = tbResultCursorLost ∧ history.resynced = false) ∧
        Fewer history (history.fail config env error retryAfter)) := by
  unfold fail
  dsimp only
  split_ifs with hlost
  · obtain ⟨hlost, hresynced⟩ := hlost
    refine .inl ⟨hlost, Bool.eq_false_of_not_eq_true hresynced, ?_, fun hnone => ?_, fun hnone h => ?_⟩
    · exact asked_submit _ _ _
    · refine (left_submit _ _ _).trans ?_
      have hzero : history.clearStaging.recheckDue = 0 := hnone
      simp only [hzero, followupsLeft]
      split_ifs <;> simp_all
    · exact rechecked_submit _ _ _ ⟨h.periodic, fun hset => absurd hnone hset⟩
  · have hnot : ¬ (error = tbResultCursorLost ∧ history.resynced = false) :=
      fun ⟨herror, hfresh⟩ => hlost ⟨herror, Bool.eq_false_iff.mp hfresh⟩
    obtain ⟨hasked, hleft, hrechecked⟩ := @fewer_failed config env
      { history.clearStaging with pending := 0, op := .none, retryAfter } history.op error hinterval
    refine .inr ⟨hnot, hasked, hleft.trans ?_, fun h => hrechecked ⟨h.periodic, h.counted⟩⟩
    unfold left followupsLeft rechecksLeft clearStaging
    split_ifs <;> simp_all

def StartsOver (history : TbHistory) : Event × Env → Prop
  | (.response sequence response _, _) =>
    (sequence : ℕ) = history.pending ∧ response.outcome = .response ∧
      response.result = tbResultCursorLost ∧ history.resynced = false
  | _ => False

instance (history : TbHistory) (event : Event × Env) : Decidable (history.StartsOver event) := by
  unfold StartsOver
  split <;> infer_instance

theorem Fewer.trans {history' history'' : TbHistory} (h : Fewer history history')
    (h' : Fewer history' history'') : Fewer history history'' :=
  ⟨h'.asked.trans h.asked, h'.left.trans h.left, h'.rechecked ∘ h.rechecked⟩

theorem fewer_abandon (sequence : ℕ) (response : TbResponse) :
    Fewer history (history.abandon sequence response) := by
  refine ⟨?_, Nat.le_refl _, fun h => ⟨h.periodic, h.counted⟩⟩
  have hcancelled : (abandoned sequence response : List (RequestCall Unit)).count (.submit ()) = 0 := by
    unfold abandoned
    split_ifs <;> rfl
  rw [asked, abandon, count_append, hcancelled]
  rfl

theorem fewer_parse (payload : List UInt8) : Fewer history (history.parse config env payload).1 :=
  ⟨rfl, Nat.le_refl _, fun h => ⟨h.periodic, h.counted⟩⟩

theorem completed_counters (h : Rechecked history) (sequence : ℕ+) (response : TbResponse) (flags : ℕ)
    (hinterval : config.refreshInterval = 0) :
    let after := history.completed config env sequence response flags
    (history.StartsOver (.response sequence response flags, env) ∧ after.asked = history.asked + 1 ∧
        (history.recheckDue = 0 → after.left ≤ 3 ∧ Rechecked after)) ∨
      Fewer history after := by
  have hfail : ∀ history' : TbHistory, ∀ error retryAfter, Fewer history history' →
      error ≠ tbResultCursorLost → Fewer history (history'.fail config env error retryAfter) := by
    intro history' error retryAfter hfewer hother
    rcases @fail_counters config env history' error retryAfter hinterval with ⟨hlost, -⟩ | ⟨-, hmore⟩
    · exact absurd hlost hother
    · exact hfewer.trans hmore
  rcases completed_cases history sequence response flags with ⟨-, heq⟩ | ⟨hsequence, -, hcases⟩
  · exact .inr (by rw [heq]; exact Fewer.refl _)
  rcases hcases with ⟨-, heq⟩ | ⟨-, -, ⟨-, heq⟩ | ⟨-, -, heq⟩ | ⟨-, -, -, heq⟩ | ⟨-, -, -, heq⟩⟩
  · rw [heq]
    have habandon := @fewer_abandon history sequence response
    rcases @fail_counters config env (history.abandon sequence response) (tbErrorFromResponse response)
      response.retryAfter hinterval with ⟨hlost, hfresh, hasked, hleft, hrechecked⟩ | ⟨-, hfewer⟩
    · obtain ⟨houtcome, hresult⟩ := outcome_of_lost hlost
      refine .inl ⟨⟨hsequence, houtcome, hresult, hfresh⟩, ?_, fun hnone => ?_⟩
      · rw [hasked, habandon.asked]
      · exact ⟨hleft hnone, hrechecked hnone (habandon.rechecked h)⟩
    · exact .inr (habandon.trans hfewer)
  · refine .inr ?_
    rw [heq]
    exact hfail _ _ _ ((fewer_parse _).trans (fewer_abandon _ _)) (by decide)
  · refine .inr ?_
    rw [heq]
    exact fewer_parse _
  · refine .inr ?_
    rw [heq]
    have hcleared : Fewer history (history.parse config env response.payload).1.clearStaging :=
      ⟨rfl, Nat.le_refl _, fun h => ⟨h.periodic, h.counted⟩⟩
    exact hfail _ _ _ hcleared (by decide)
  · refine .inr ?_
    rw [heq]
    exact (fewer_parse _).trans (finish_counters flags hinterval ((fewer_parse _).rechecked h))

/-! ### What the other events count -/

theorem timerRan_counters (h : Rechecked history) :
    let after := history.timerRan env
    after.asked + after.left ≤ history.asked + history.left ∧ Rechecked after := by
  have hzero := h.periodic
  have hcounted := h.counted
  have hset : ∀ {time current}, due time current = true → time ≠ 0 := by
    rintro time current hdue rfl
    cases hdue
  have hperiodic : due history.periodicDue (env.now .checked) = false := by rw [hzero]; rfl
  unfold timerRan
  dsimp only
  by_cases hnone : ¬ due history.followupDue (env.now .checked) ∧
      ¬ due history.periodicDue (env.now .checked) ∧ ¬ due history.recheckDue (env.now .checked)
  · rw [if_pos hnone]
    exact ⟨Nat.le_refl _, hzero, hcounted⟩
  rw [if_neg hnone]
  by_cases hop : history.op = .none
  · rw [if_neg (not_not_intro hop)]
    cases hrecheck : due history.recheckDue (env.now .checked) with
    | true =>
      have hdue : history.recheckDue ≠ 0 := hset hrecheck
      have hasked : asked { history with timer := none, recheckDue := 0 } = history.asked := rfl
      rw [if_pos rfl]
      refine ⟨?_, rechecked_submit _ _ _ ⟨hzero, fun hset => absurd rfl hset⟩⟩
      refine (Nat.add_le_add (Nat.le_of_eq (asked_submit _ _ _)) (left_submit _ _ _)).trans ?_
      have hfollowups :
          followupsLeft { history with timer := none, recheckDue := 0 } = history.followupsLeft := rfl
      have hone := hcounted hdue
      have hright : history.rechecksLeft = 1 + (2 - history.rechecks) := by
        rw [rechecksLeft, if_neg (fun hand => hdue hand.1), if_neg hdue]
      rw [hasked, hfollowups, left, hright]
      simp only [ne_eq, not_true_eq_false, and_false, if_false, if_true]
      omega
    | false =>
      have hfollowup : history.followupDue ≠ 0 := by
        refine @hset _ (env.now .checked) (Bool.eq_true_of_not_eq_false fun hfalse => hnone ?_)
        simp [hfalse, hperiodic, hrecheck]
      have hstill : ¬ (due history.periodicDue (env.now .checked) = true ∧
          ¬ due history.followupDue (env.now .checked) = true) := by simp [hperiodic]
      rw [if_neg Bool.false_ne_true, if_neg hstill]
      have hleft : followupsLeft { history with timer := none, followupDue := 0, periodicDue := 0 } + 1 =
          history.followupsLeft := by
        simp only [followupsLeft, hfollowup, if_true, if_false]
        omega
      by_cases hactive : history.active = true
      · have hasked : asked { history with timer := none, followupDue := 0, periodicDue := 0 } =
            history.asked := rfl
        rw [if_neg (not_not_intro hactive)]
        refine ⟨?_, rechecked_submit _ _ _ ⟨rfl, hcounted⟩⟩
        refine (Nat.add_le_add (Nat.le_of_eq (asked_submit _ _ _)) (left_submit _ _ _)).trans ?_
        have hsum : ∀ a n m k : ℕ, n + 1 = m → a + 1 + (n + k) ≤ a + (m + k) := by omega
        rw [hasked, left, rechecksLeft, hop]
        simp only [ne_eq, reduceCtorEq, not_false_eq_true, and_true]
        exact hsum _ _ _ _ hleft
      · rw [if_pos hactive]
        refine ⟨Nat.add_le_add_left (Nat.add_le_add_right ?_ _) _, rfl, hcounted⟩
        exact Nat.le_of_lt (Nat.lt_of_lt_of_eq (Nat.lt_succ_self _) hleft)
  · -- what is due is put off
    rw [if_pos hop]
    have hzeroes : (if due history.periodicDue (env.now .checked) = true then
        atDelay (env.now .periodic) tbBusyPostpone else history.periodicDue) = 0 := by
      rw [hperiodic, if_neg Bool.false_ne_true, hzero]
    have hput : ∀ (time now : ℕ), ((if due time (env.now .checked) = true then
        atDelay now tbBusyPostpone else time) = 0 ↔ time = 0) := by
      intro time now
      split_ifs with hdue
      · exact iff_of_false (atDelay_ne_zero _ _) (hset hdue)
      · exact Iff.rfl
    refine ⟨Nat.add_le_add_left (Nat.le_of_eq ?_) _, hzeroes, fun hdue => hcounted ?_⟩
    · simp only [left, followupsLeft, rechecksLeft, arm, hput]
    · exact fun hnone => hdue ((hput _ _).mpr hnone)

structure Acted (history after : TbHistory) : Prop where
  asked : after.asked ≤ history.asked + 1
  rechecked : Rechecked history → Rechecked after

theorem Acted.refl (history : TbHistory) : Acted history history :=
  ⟨Nat.le_succ _, id⟩

theorem acted_submit {before : TbHistory} (op : TbHistoryOp) (page : PageOp) (silent : Bool)
    (hasked : before.asked = history.asked) (hrechecked : Rechecked history → Rechecked before) :
    Acted history (before.submit env op page silent) where
  asked := by rw [asked_submit, hasked]
  rechecked h := rechecked_submit op page silent (hrechecked h)

theorem asked_close (history : TbHistory) : history.close.asked = history.asked := by
  have hcancelled : (cancelled history.pending : List (RequestCall Unit)).count (.submit ()) = 0 := by
    unfold cancelled
    split_ifs <;> rfl
  rw [asked, close, count_append, hcancelled]
  rfl

theorem acted_open (history : TbHistory) (account chat : CString) :
    Acted history (history.open env account chat) := by
  unfold «open»
  dsimp only
  split_ifs
  · exact acted_submit _ _ _ (asked_close history) fun _ => ⟨rfl, fun hset => absurd rfl hset⟩
  · exact acted_submit _ _ _ (asked_close history) fun _ => ⟨rfl, fun hset => absurd rfl hset⟩

theorem acted_loadOlder (history : TbHistory) : Acted history (history.loadOlder env) := by
  unfold loadOlder
  split_ifs with hidle
  · exact Acted.refl history
  cases history.top with
  | loading => exact Acted.refl history
  | more => exact acted_submit _ _ _ rfl id
  | failed | waiting | start | unknown =>
    cases history.topOp with
    | first | refresh =>
      exact acted_submit _ _ _ rfl fun h => ⟨h.periodic, fun hset => absurd rfl hset⟩
    | next | retry | recheck =>
      refine acted_submit _ _ _ ?_ fun h => ?_
      · split_ifs <;> rfl
      · split_ifs <;> exact ⟨h.periodic, fun hset => absurd rfl hset⟩

theorem acted_refresh (history : TbHistory) : Acted history (history.refresh env) := by
  unfold refresh
  dsimp only
  split_ifs
  · exact Acted.refl history
  · exact acted_submit _ _ _ rfl fun h => ⟨h.periodic, h.counted⟩
  · exact acted_submit _ _ _ rfl fun h => ⟨h.periodic, h.counted⟩

theorem acted_retry (history : TbHistory) : Acted history (history.retry env) := by
  unfold retry
  split_ifs
  · exact Acted.refl history
  · exact acted_loadOlder history
  · exact acted_refresh history
  · exact acted_submit _ _ _ rfl fun h => ⟨h.periodic, h.counted⟩

theorem acted_show (history : TbHistory) (hinterval : config.refreshInterval = 0) :
    Acted history (history.setActive config env true) := by
  unfold setActive
  by_cases haccount : history.account = []
  · rw [if_pos haccount]
    exact Acted.refl history
  rw [if_neg haccount]
  rw [if_neg (by simp)]
  split_ifs
  · have hacted := @acted_refresh env { history with active := true }
    exact ⟨hacted.asked, fun h => hacted.rechecked ⟨h.periodic, h.counted⟩⟩
  · exact ⟨Nat.le_succ _, fun h => ⟨periodicDue_of_disabled _ hinterval, h.counted⟩⟩

theorem fewer_hide (history : TbHistory) : Fewer history (history.setActive config env false) := by
  unfold setActive
  by_cases haccount : history.account = []
  · rw [if_pos haccount]
    exact Fewer.refl history
  rw [if_neg haccount]
  rw [if_pos Bool.false_ne_true]
  refine ⟨rfl, Nat.add_le_add_right ?_ _, fun h => ⟨rfl, h.counted⟩⟩
  simp only [followupsLeft, arm]
  split_ifs <;> omega

theorem fewer_close (history : TbHistory) : Fewer history history.close := by
  refine ⟨asked_close history, ?_, fun _ => ⟨rfl, fun hset => absurd rfl hset⟩⟩
  simp only [left, followupsLeft, rechecksLeft, close, clearStaging, ne_eq, reduceCtorEq,
    not_false_eq_true, and_true, if_true]
  split_ifs <;> omega

end TbHistory

/-! ### The requests since the last action -/

/-- The user asks for something. -/
def Event.Acts : Event → Prop
  | .open _ _ | .loadOlder | .refresh | .retry | .setActive true => True
  | _ => False

instance : (event : Event) → Decidable event.Acts
  | .open _ _ | .loadOlder | .refresh | .retry | .setActive true => .isTrue trivial
  | .close | .setActive false | .timer | .response _ _ _ => .isFalse id

/-- The view, and the requests that it had submitted before the last action of the user. -/
structure Counted where
  history : TbHistory := {}
  before : ℕ := 0

namespace Counted

def since (counted : Counted) : ℕ :=
  counted.history.asked - counted.before

def step (config : TbHistoryConfig) (counted : Counted) (event : Event × Env) : Counted where
  history := HistoryView.step config counted.history event
  before := if event.1.Acts then counted.history.asked else counted.before

/-- The view starts over by itself only for the first request since the last action, and not while a
recheck is due. -/
def Spared (counted : Counted) (event : Event × Env) : Prop :=
  counted.history.StartsOver event → counted.since ≤ 1 ∧ counted.history.recheckDue = 0

instance (counted : Counted) (event : Event × Env) : Decidable (counted.Spared event) :=
  inferInstanceAs (Decidable (_ → _))

/-- What has been asked for since the last action and what is still to come are six requests. -/
structure Bounded (counted : Counted) : Prop where
  sum : counted.history.asked + counted.history.left ≤ counted.before + 6
  rechecked : counted.history.Rechecked

variable {event : Event × Env} {counted : Counted}

theorem bounded_of_acted (h : counted.Bounded) (hacts : event.1.Acts)
    (hacted : counted.history.Acted (HistoryView.step config counted.history event)) :
    (counted.step config event).Bounded := by
  have hrechecked := hacted.rechecked h.rechecked
  refine ⟨?_, hrechecked⟩
  have hasked := hacted.asked
  have hleft := hrechecked.left_le
  simp only [step, if_pos hacts]
  omega

theorem bounded_of_sum (h : counted.Bounded) (hacts : ¬ event.1.Acts)
    (hsum : (HistoryView.step config counted.history event).asked +
      (HistoryView.step config counted.history event).left ≤
        counted.history.asked + counted.history.left)
    (hrechecked : (HistoryView.step config counted.history event).Rechecked) :
    (counted.step config event).Bounded := by
  refine ⟨?_, hrechecked⟩
  simp only [step, if_neg hacts]
  exact hsum.trans h.sum

theorem bounded_step (hinterval : config.refreshInterval = 0)
    (h : counted.Bounded) (hspared : counted.Spared event) :
    (counted.step config event).Bounded := by
  have hfewer : ∀ {event : Event × Env}, ¬ event.1.Acts →
      counted.history.Fewer (HistoryView.step config counted.history event) →
      (counted.step config event).Bounded := fun hacts hfewer =>
    bounded_of_sum h hacts (Nat.add_le_add (Nat.le_of_eq hfewer.asked) hfewer.left)
      (hfewer.rechecked h.rechecked)
  obtain ⟨event, env⟩ := event
  cases event with
  | «open» account chat => exact bounded_of_acted h trivial (TbHistory.acted_open _ _ _)
  | close => exact hfewer id (TbHistory.fewer_close _)
  | loadOlder => exact bounded_of_acted h trivial (TbHistory.acted_loadOlder _)
  | refresh => exact bounded_of_acted h trivial (TbHistory.acted_refresh _)
  | retry => exact bounded_of_acted h trivial (TbHistory.acted_retry _)
  | setActive active =>
    cases active with
    | true => exact bounded_of_acted h trivial (TbHistory.acted_show _ hinterval)
    | false => exact hfewer id (TbHistory.fewer_hide _)
  | timer =>
    obtain ⟨hsum, hrechecked⟩ := @TbHistory.timerRan_counters env _ h.rechecked
    exact bounded_of_sum h id hsum hrechecked
  | response sequence response flags =>
    rcases @TbHistory.completed_counters config env _ h.rechecked sequence response flags hinterval
      with ⟨hstarts, hasked, hleft⟩ | hless
    · -- the view starts over: nothing but the first request has been asked for
      obtain ⟨hsince, hnone⟩ := hspared hstarts
      obtain ⟨hthree, hrechecked⟩ := hleft hnone
      have hacts : ¬ (Event.response sequence response flags).Acts := id
      refine ⟨?_, hrechecked⟩
      simp only [step, if_neg hacts, HistoryView.step, hasked]
      unfold since at hsince
      omega
    · exact hfewer id hless

theorem bounded_init : ({} : Counted).Bounded :=
  ⟨by decide, rfl, fun hset => absurd rfl hset⟩

end Counted

/-- **Automatic requests are bounded.** With the periodic refresh disabled, whatever is answered: in
every run in which the view starts over by itself only for the first request since the last action and
not while a recheck is due, no more than six requests follow an action. -/
theorem bounded_of_run (config : TbHistoryConfig) (hinterval : config.refreshInterval = 0)
    (events : List (Event × Env))
    (hspared : check (Counted.step config) Counted.Spared {} events = true) :
    ∀ before, before <+: events → (before.foldl (Counted.step config) {}).since ≤ 6 := by
  have hstep : ∀ counted, ∀ event ∈ events, Counted.Bounded counted → counted.Spared event →
      (counted.step config event).Bounded := fun _ _ _ h hspared =>
    Counted.bounded_step hinterval h hspared
  intro before hbefore
  have hsum := (always_of_check (Counted.step config) hstep Counted.bounded_init hspared before
    hbefore).sum
  unfold Counted.since
  omega

/-- The configuration of the watch without the periodic refresh, and with short delays. -/
def quietConfig : TbHistoryConfig := { sampleConfig with refreshInterval := 0, followupDelays := fun _ => 1 }

attribute [local instance] neZero_one in
def lostOnce : List (Event × Env) :=
  [(.open [0x61] [0x31], sampleEnv 1),
    (.response 1 { outcome := .response, result := tbResultCursorLost } 0, sampleEnv 1),
    (.response 1 { outcome := .response } tbFlagRefreshPending, sampleEnv 1)]

/-- A view that starts over once asks for no more than six pages. -/
theorem bounded_lostOnce : (lostOnce.foldl (Counted.step quietConfig) {}).since ≤ 6 :=
  bounded_of_run quietConfig rfl lostOnce (by decide +kernel) lostOnce (List.prefix_refl _)

/-! ### A view that starts over again and again -/

namespace Forever

attribute [local instance] neZero_one in
def refreshing : Event × Env := (.response 1 { outcome := .response } tbFlagRefreshPending, sampleEnv 1)

def ran : Event × Env := (.timer, { sampleEnv 1 with now := fun _ => 2 })

attribute [local instance] neZero_one in
def lost : Event × Env :=
  (.response 1 { outcome := .response, result := tbResultCursorLost } 0, sampleEnv 1)

variable (calls : List (RequestCall Unit))

def startedOver : TbHistory :=
  { account := [0x61], chat := [0x31], op := .first, opPage := .first, pending := 1, loaded := true,
    active := true, refreshingSilently := true, resynced := true, followupChain := true,
    top := .unknown, topOp := .refresh, refreshedAt := 1, calls }

def followed : TbHistory :=
  { startedOver calls with
    op := .none, pending := 0, resynced := false, followups := 1, followupDue := 2,
    timer := some (1, 1) }

def following : TbHistory :=
  { startedOver calls with
    op := .refresh, opPage := .refresh, resynced := false, followups := 1 }

theorem finish_startedOver :
    (startedOver calls).finish quietConfig (sampleEnv 1) tbFlagRefreshPending = followed calls := by
  have hpage : TbHistory.finishNewest quietConfig (sampleEnv 1)
      { startedOver calls with op := .none, pending := 0, resynced := false } tbFlagRefreshPending true =
        { followed calls with timer := none } := rfl
  have harm : TbHistory.arm (sampleEnv 1) { followed calls with timer := none } = followed calls := by
    have hdelay : Deadline.delay 1 ([2, 0, 0].filter (· ≠ 0)) = some 1 := by decide
    have hdues : TbHistory.dues { followed calls with timer := none } = [2, 0, 0] := rfl
    have hnow : (sampleEnv 1).now .armed = 1 := rfl
    unfold TbHistory.arm
    rw [hdues, hnow, hdelay]
    rfl
  exact (congrArg (fun history => (TbHistory.settle quietConfig history).arm (sampleEnv 1)) hpage).trans
    harm

theorem step_refreshing :
    step quietConfig (startedOver calls) refreshing = followed calls := by
  have hfinish : step quietConfig (startedOver calls) refreshing =
      (startedOver calls).finish quietConfig (sampleEnv 1) tbFlagRefreshPending := rfl
  exact hfinish.trans (finish_startedOver calls)

theorem step_ran :
    step quietConfig (followed calls) ran = following (calls ++ [] ++ [.submit ()]) := by
  have hsubmit : step quietConfig (followed calls) ran =
      TbHistory.submit ran.2 { followed calls with followupDue := 0, timer := none } .refresh .refresh
        true := by
    have hstep : step quietConfig (followed calls) ran = (followed calls).timerRan ran.2 := rfl
    rw [hstep]
    rfl
  exact hsubmit.trans rfl

theorem step_lost :
    step quietConfig (following calls) lost = startedOver (calls ++ [] ++ [] ++ [.submit ()]) := rfl

theorem round (before : ℕ) :
    [refreshing, ran, lost].foldl (Counted.step quietConfig) ⟨startedOver calls, before⟩ =
      ⟨startedOver (calls ++ [.submit (), .submit ()]), before⟩ := by
  have hkept : ∀ (history : TbHistory) (event : Event × Env), ¬ event.1.Acts →
      Counted.step quietConfig ⟨history, before⟩ event = ⟨step quietConfig history event, before⟩ :=
    fun history event hacts => by rw [Counted.step, if_neg hacts]
  simp only [foldl_cons, foldl_nil]
  rw [hkept _ refreshing (by decide), step_refreshing, hkept _ ran (by decide), step_ran,
    hkept _ lost (by decide), step_lost]
  simp only [append_nil, append_assoc, cons_append, nil_append]

theorem rounds (count : ℕ) (calls : List (RequestCall Unit)) (before : ℕ) :
    ((List.replicate count [refreshing, ran, lost]).flatten).foldl (Counted.step quietConfig)
      ⟨startedOver calls, before⟩ =
        ⟨startedOver (calls ++ List.replicate (2 * count) (.submit ())), before⟩ := by
  induction count generalizing calls with
  | zero => simp
  | succ count ih =>
    rw [replicate_succ, flatten_cons, foldl_append, round, ih, append_assoc]
    rfl

end Forever

/-- An action of the user can lead to any number of requests. -/
theorem asked_forever : ¬ ∃ bound, ∀ (action : Event × Env) (events : List (Event × Env)),
    action.1.Acts → (∀ event ∈ events, ¬ event.1.Acts) →
      ((action :: events).foldl (Counted.step quietConfig) {}).since ≤ bound := by
  rintro ⟨bound, h⟩
  have hquiet : ∀ event ∈ [Forever.refreshing, Forever.ran, Forever.lost], ¬ event.1.Acts := by decide
  have hbound := h (.open [0x61] [0x31], sampleEnv 1)
    ([Forever.refreshing, Forever.ran, Forever.lost] ++
      (List.replicate bound [Forever.refreshing, Forever.ran, Forever.lost]).flatten) trivial ?_
  · have hfirst : [(.open [0x61] [0x31], sampleEnv 1), Forever.refreshing, Forever.ran,
        Forever.lost].foldl (Counted.step quietConfig) {} =
          ⟨Forever.startedOver [.submit (), .submit (), .submit ()], 0⟩ := rfl
    rw [← List.cons_append, List.foldl_append, hfirst, Forever.rounds] at hbound
    have hasked : (Forever.startedOver ([.submit (), .submit (), .submit ()] ++
        List.replicate (2 * bound) (.submit ()))).asked = 3 + 2 * bound := by
      simp [TbHistory.asked, Forever.startedOver]
      omega
    have hsince : 3 + 2 * bound ≤ bound := by rwa [Counted.since, hasked] at hbound
    omega
  · simp only [List.mem_append, List.mem_flatten, List.mem_replicate]
    rintro event (hevent | ⟨events, ⟨-, rfl⟩, hevent⟩)
    · exact hquiet event hevent
    · exact hquiet event hevent

end Watch.HistoryView
