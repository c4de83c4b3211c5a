import Mathlib.Data.List.Sort
import TeleBezel.Lib.Transition

/-!
# The proxy monitor

`ProxyProfileService::monitor` of `backend-api/app`: it reads the policy, asks the runtime for the
connections, and then records when the active proxy has begun to fail, records that it works again, or
switches to another proxy once it has failed for long enough. A lock keeps runs apart, but for ten
seconds only, so that a run whose question takes longer may overlap later ones. `activateObserved`
looks under the lock of the row whether the revision, the active proxy and the action are those that the
run has read; `recordFailure` changes none of these.

What is done to the accounts when the configuration changes is left out, and so is the interval of the
monitor. It is counted how often `recordFailure` has written to the row.
-/

open List

namespace Api.ProxyMonitor

open Transition

/-- The values of `proxy_failure_action`. -/
inductive FailureAction
  | direct
  | next
  | stay
deriving DecidableEq

/-- `ProxyPolicyData`, and the columns of the row that it is read from. -/
structure Policy where
  activeId : Option String := none
  revision : ℕ := 1
  failureAction : FailureAction := .next
  timeoutSeconds : ℕ := 10
  failureStartedAt : Option ℕ := none
deriving DecidableEq

/-- A row of `proxy_profiles`, by its id and its place. -/
structure Profile where
  id : String
  position : ℕ

/-- Where a run of `monitor` stands. -/
inductive Stage
  /-- It has the lock. -/
  | locked
  /-- It has read the policy and asks the runtime. -/
  | asking (policy : Policy)
  /-- It is about to call `recordFailure`. -/
  | recording (policy : Policy) (failed : Bool)
  /-- It looks for the next proxy. -/
  | choosing (policy : Policy)
  /-- It is about to call `activateObserved`. -/
  | switching (policy : Policy) (next : Option String)

def Stage.policy? : Stage → Option Policy
  | .locked => none
  | .asking policy | .recording policy _ | .choosing policy | .switching policy _ => some policy

structure Run where
  id : ℕ
  stage : Stage
  records : ℕ

/-- A switch of `activateObserved`: the policy that was decided by, the failure that is stored at that
moment, and how often something was recorded since the policy was read. -/
structure Switch where
  policy : Policy
  stored : Option ℕ
  recorded : ℕ
deriving DecidableEq

/-- The row and the profiles, the lock with its owner and when it ends, and the runs. -/
structure State where
  now : ℕ := 0
  lock : Option (ℕ × ℕ) := none
  row : Policy := {}
  profiles : List Profile := []
  runs : List Run := []
  /-- How often `recordFailure` has written to the row. -/
  records : ℕ := 0
  switches : List Switch := []

/-- What the runtime answers: nothing, or for how many accounts of how many the connection is ready. -/
inductive Answer
  | failed
  | counts (accounts ready : ℕ)

def lockSeconds : ℕ := 10

/-- What `monitor` goes on with after the answer, or none where it returns. -/
def decision (now : ℕ) (policy : Policy) : Answer → Option Stage
  | .failed => none
  | .counts accounts ready =>
    if accounts = 0 then none
    else if ready ≠ 0 then
      if policy.failureStartedAt.isSome then some (.recording policy false) else none
    else
      match policy.failureStartedAt with
      | none => some (.recording policy true)
      | some start =>
        if now < start + policy.timeoutSeconds then none
        else
          match policy.failureAction with
          | .stay => none
          | .next => some (.choosing policy)
          | .direct => some (.switching policy none)

/-- The proxy after the current one, or the first other one, or none where `monitor` throws. -/
def successor (profiles : List Profile) (activeId : Option String) : Option String := do
  let all := profiles.insertionSort fun a b => a.position ≤ b.position
  let current ← profiles.find? fun profile => some profile.id = activeId
  let next ← all.find? (current.position < ·.position) <|> all.find? (·.id ≠ current.id)
  return next.id

namespace State

def run? (s : State) (id : ℕ) : Option Run := s.runs.find? (·.id = id)

def goes (s : State) (run : Run) : State :=
  { s with runs := s.runs.map fun other => if other.id = run.id then run else other }

def ends (s : State) (id : ℕ) : State :=
  { s with
    runs := s.runs.filter (·.id ≠ id)
    lock := s.lock.filter (·.1 ≠ id) }

/-- `monitor` begins, if the lock is free. -/
def takes (s : State) (id : ℕ) : State :=
  if s.lock.any (s.now < ·.2) ∨ s.runs.any (·.id = id) then s
  else
    { s with
      lock := some (id, s.now + lockSeconds)
      runs := s.runs ++ [⟨id, .locked, s.records⟩] }

def reads (s : State) (id : ℕ) : State :=
  if s.row.activeId = none then s.ends id else s.goes ⟨id, .asking s.row, s.records⟩

def stands (s : State) (policy : Policy) : Bool :=
  s.row.revision = policy.revision && s.row.activeId = policy.activeId

def recordFailure (s : State) (policy : Policy) (failed : Bool) : State :=
  if s.stands policy then
    { s with
      row := { s.row with failureStartedAt := if failed then some s.now else none }
      records := s.records + 1 }
  else s

def known (s : State) (id : Option String) : Bool :=
  id.all fun id => s.profiles.any (·.id = id)

/-- `activateLocked`, for a proxy that is there. -/
def activateLocked (s : State) (id : Option String) : State :=
  { s with row := { s.row with
      activeId := id
      failureStartedAt := none
      revision := s.row.revision + 1 } }

def activate (s : State) (id : Option String) : State :=
  if s.known id then s.activateLocked id else s

/-- `activateObserved`, of a run that has read a policy. -/
def activateObserved (s : State) (run : Run) (policy : Policy) (id : Option String) : State :=
  if s.stands policy ∧ s.row.failureAction = policy.failureAction ∧ s.known id then
    { s.activateLocked id with
      switches := s.switches ++ [⟨policy, s.row.failureStartedAt, s.records - run.records⟩] }
  else s

def configure (s : State) (failureAction : FailureAction) (timeoutSeconds : ℕ) : State :=
  { s with row := { s.row with
      failureAction
      timeoutSeconds
      revision := s.row.revision + 1
      failureStartedAt := none } }

end State

inductive Event
  /-- Time passes. -/
  | pass (seconds : ℕ)
  /-- `monitor` is called. -/
  | monitor (run : ℕ)
  | read (run : ℕ)
  | answer (run : ℕ) (answer : Answer)
  | choose (run : ℕ)
  | record (run : ℕ)
  | switch (run : ℕ)
  /-- A run ends with an exception. -/
  | leave (run : ℕ)
  | activate (id : Option String)
  | configure (failureAction : FailureAction) (timeoutSeconds : ℕ)
  /-- `SettingsRepository::update` counts the revision up. -/
  | settings
  | create (profile : Profile)
  | delete (id : String)

def step (s : State) : Event → State
  | .pass seconds => { s with now := s.now + seconds }
  | .monitor id => s.takes id
  | .read id =>
    match s.run? id with
    | some ⟨_, .locked, _⟩ => s.reads id
    | _ => s
  | .answer id answer =>
    match s.run? id with
    | some ⟨_, .asking policy, records⟩ =>
      match decision s.now policy answer with
      | some stage => s.goes ⟨id, stage, records⟩
      | none => s.ends id
    | _ => s
  | .choose id =>
    match s.run? id with
    | some ⟨_, .choosing policy, records⟩ =>
      match successor s.profiles policy.activeId with
      | some next => s.goes ⟨id, .switching policy (some next), records⟩
      | none => s.ends id
    | _ => s
  | .record id =>
    match s.run? id with
    | some ⟨_, .recording policy failed, _⟩ => (s.recordFailure policy failed).ends id
    | _ => s
  | .switch id =>
    match s.run? id with
    | some ⟨_, .switching policy next, records⟩ =>
      (s.activateObserved ⟨id, .switching policy next, records⟩ policy next).ends id
    | _ => s
  | .leave id => s.ends id
  | .activate id => s.activate id
  | .configure failureAction timeoutSeconds => s.configure failureAction timeoutSeconds
  | .settings => { s with row := { s.row with revision := s.row.revision + 1 } }
  | .create profile =>
    if s.profiles.any (·.id = profile.id) then s else { s with profiles := s.profiles ++ [profile] }
  | .delete id =>
    if s.row.activeId = some id then s else { s with profiles := s.profiles.filter (·.id ≠ id) }

/-- **A switch after an uninterrupted failure**: the failure that the decision was based on is the one
that is stored, and nothing was recorded since the run has read it. -/
def Switch.Uninterrupted (switch : Switch) : Prop :=
  switch.policy.failureStartedAt ≠ none ∧ switch.stored = switch.policy.failureStartedAt ∧
    switch.recorded = 0

def State.relies (s : State) (run : Run) : Bool :=
  run.stage.policy?.any fun policy => s.stands policy && policy.failureStartedAt.isSome

def State.AloneAt (s : State) (id : ℕ) (policy : Policy) : Prop :=
  s.stands policy = true → ∀ other ∈ s.runs, other.id ≠ id → s.relies other = false

instance (s : State) (id : ℕ) (policy : Policy) : Decidable (s.AloneAt id policy) :=
  inferInstanceAs (Decidable (_ → ∀ other ∈ s.runs, _ → _))

def State.recordedBy (s : State) (id : ℕ) : Option Policy :=
  match s.run? id with
  | some ⟨_, .recording policy _, _⟩ => some policy
  | _ => none

/-- A failure is recorded while no other run touches its policy. -/
def Alone (s : State) : Event → Prop
  | .record id => ∀ policy ∈ s.recordedBy id, s.AloneAt id policy
  | _ => True

instance (s : State) : (event : Event) → Decidable (Alone s event)
  | .record id => inferInstanceAs (Decidable (∀ policy ∈ s.recordedBy id, s.AloneAt id policy))
  | .pass _ | .monitor _ | .read _ | .answer _ _ | .choose _ | .switch _ | .leave _ | .activate _
  | .configure _ _ | .settings | .create _ | .delete _ => isTrue trivial

/-- What a run has read is not of a later revision, and a failure that it has read is still stored while
the row stands as it was. -/
structure Faithful (s : State) (run : Run) : Prop where
  revision : ∀ policy, run.stage.policy? = some policy → policy.revision ≤ s.row.revision
  stored : ∀ policy, run.stage.policy? = some policy → s.stands policy = true →
    policy.failureStartedAt ≠ none →
    s.row.failureStartedAt = policy.failureStartedAt ∧ s.records = run.records
  /-- A run that is about to switch has read a failure. -/
  failing : ∀ policy, (run.stage = .choosing policy ∨ ∃ next, run.stage = .switching policy next) →
    policy.failureStartedAt ≠ none

structure Sound (s : State) : Prop where
  switches : ∀ switch ∈ s.switches, switch.Uninterrupted
  runs : ∀ run ∈ s.runs, Faithful s run

variable {s s' : State} {run : Run} {id : ℕ}

theorem of_run? (h : s.run? id = some run) : run ∈ s.runs ∧ run.id = id := by
  exact ⟨mem_of_find?_eq_some h, by simpa using List.find?_some h⟩

theorem Faithful.congr (h : Faithful s run) (hrow : s'.row = s.row) (hrecords : s'.records = s.records) :
    Faithful s' run := by
  have hstands : ∀ policy, s'.stands policy = s.stands policy := by
    intro policy
    unfold State.stands
    rw [hrow]
  refine ⟨fun policy hpolicy => ?_, fun policy hpolicy hstand hfails => ?_, h.failing⟩
  · rw [hrow]
    exact h.revision policy hpolicy
  · rw [hrow, hrecords]
    exact h.stored policy hpolicy (by rwa [← hstands]) hfails

theorem Faithful.later (h : Faithful s run) (hrevision : s.row.revision < s'.row.revision) :
    Faithful s' run := by
  refine ⟨fun policy hpolicy => (h.revision policy hpolicy).trans hrevision.le, ?_, h.failing⟩
  intro policy hpolicy hstands
  have hle := h.revision policy hpolicy
  simp only [State.stands, Bool.and_eq_true, decide_eq_true_eq] at hstands
  omega

theorem Sound.of_runs (h : Sound s) (hrow : s'.row = s.row) (hrecords : s'.records = s.records)
    (hswitches : s'.switches = s.switches)
    (hruns : ∀ run ∈ s'.runs, run ∈ s.runs ∨ Faithful s run) : Sound s' := by
  refine ⟨by rw [hswitches]; exact h.switches, fun run hmem => ?_⟩
  rcases hruns run hmem with hold | hnew
  · exact (h.runs run hold).congr hrow hrecords
  · exact hnew.congr hrow hrecords

theorem Sound.ends (h : Sound s) (id : ℕ) : Sound (s.ends id) :=
  h.of_runs rfl rfl rfl fun _ hmem => .inl (mem_filter.mp hmem).1

theorem Sound.goes (h : Sound s) (hrun : Faithful s run) : Sound (s.goes run) := by
  refine h.of_runs rfl rfl rfl fun other hmem => ?_
  obtain ⟨before, hbefore, rfl⟩ := mem_map.mp hmem
  split_ifs
  · exact .inr hrun
  · exact .inl hbefore

theorem Sound.later (h : Sound s) (hrevision : s.row.revision < s'.row.revision)
    (hruns : s'.runs = s.runs) (hswitches : s'.switches = s.switches) : Sound s' := by
  refine ⟨by rw [hswitches]; exact h.switches, fun run hmem => ?_⟩
  rw [hruns] at hmem
  exact (h.runs run hmem).later hrevision

theorem Sound.activate (h : Sound s) (next : Option String) : Sound (s.activate next) := by
  unfold State.activate
  split_ifs
  · exact h.later (Nat.lt_succ_self _) rfl rfl
  · exact h

variable {policy : Policy}

theorem decision_cases {now : ℕ} {answer : Answer} {stage : Stage}
    (h : decision now policy answer = some stage) :
    (∃ failed, stage = .recording policy failed) ∨ (policy.failureStartedAt ≠ none ∧
      (stage = .choosing policy ∨ stage = .switching policy none)) := by
  cases answer with
  | failed => cases h
  | counts accounts ready =>
    unfold decision at h
    dsimp only at h
    by_cases hnone : accounts = 0
    · rw [if_pos hnone] at h
      cases h
    rw [if_neg hnone] at h
    by_cases hready : ready ≠ 0
    · rw [if_pos hready] at h
      by_cases hfails : policy.failureStartedAt.isSome = true
      · rw [if_pos hfails] at h
        exact .inl ⟨false, (Option.some.inj h).symm⟩
      · rw [if_neg hfails] at h
        cases h
    rw [if_neg hready] at h
    cases hfailure : policy.failureStartedAt with
    | none =>
      rw [hfailure] at h
      exact .inl ⟨true, (Option.some.inj h).symm⟩
    | some start =>
      simp only [hfailure] at h
      by_cases hearly : now < start + policy.timeoutSeconds
      · rw [if_pos hearly] at h
        cases h
      rw [if_neg hearly] at h
      cases haction : policy.failureAction with
      | stay =>
        rw [haction] at h
        cases h
      | next =>
        rw [haction] at h
        exact .inr ⟨nofun, .inl (Option.some.inj h).symm⟩
      | direct =>
        rw [haction] at h
        exact .inr ⟨nofun, .inr (Option.some.inj h).symm⟩

theorem faithful_decision {records now : ℕ} {answer : Answer} {stage : Stage}
    (h : Faithful s ⟨id, .asking policy, records⟩) (hstage : decision now policy answer = some stage) :
    Faithful s ⟨id, stage, records⟩ := by
  rcases decision_cases hstage with ⟨failed, rfl⟩ | ⟨hfails, rfl | rfl⟩
  · exact ⟨h.revision, h.stored, nofun⟩
  · refine ⟨h.revision, h.stored, ?_⟩
    rintro _ (⟨⟨⟩⟩ | ⟨_, ⟨⟩⟩)
    exact hfails
  · refine ⟨h.revision, h.stored, ?_⟩
    rintro _ (⟨⟨⟩⟩ | ⟨_, ⟨⟩⟩)
    exact hfails

theorem Sound.record (h : Sound s) (failed : Bool) (halone : s.AloneAt id policy) :
    Sound ((s.recordFailure policy failed).ends id) := by
  unfold State.recordFailure
  by_cases hstands : s.stands policy = true
  · rw [if_pos hstands]
    refine ⟨h.switches, fun run hmem => ?_⟩
    obtain ⟨hmem, hother⟩ := mem_filter.mp hmem
    have hold := h.runs run hmem
    refine ⟨hold.revision, fun read hread hsame hfails => ?_, hold.failing⟩
    -- the others have not read that the proxy fails
    have hfalse := halone hstands run hmem (of_decide_eq_true hother)
    have htrue : s.relies run = true := by
      unfold State.relies
      rw [hread]
      simp only [Option.any_some, Bool.and_eq_true, Option.isSome_iff_ne_none]
      exact ⟨hsame, hfails⟩
    rw [hfalse] at htrue
    cases htrue
  · rw [if_neg hstands]
    exact h.ends id

theorem Sound.switch (h : Sound s) {next : Option String} {records : ℕ}
    (hrun : Faithful s ⟨id, .switching policy next, records⟩) :
    Sound ((s.activateObserved ⟨id, .switching policy next, records⟩ policy next).ends id) := by
  apply Sound.ends
  unfold State.activateObserved
  split_ifs with hobserved
  · refine ⟨fun switch hmem => ?_, fun run hmem => (h.runs run hmem).later (Nat.lt_succ_self _)⟩
    rcases mem_append.mp hmem with hmem | hmem
    · exact h.switches switch hmem
    · rw [mem_singleton.mp hmem]
      have hfails := hrun.failing policy (.inr ⟨next, rfl⟩)
      obtain ⟨hstored, hrecords⟩ := hrun.stored policy rfl hobserved.1 hfails
      exact ⟨hfails, hstored, by rw [hrecords]; exact Nat.sub_self _⟩
  · exact h

theorem sound_step (h : Sound s) {event : Event} (halone : Alone s event) : Sound (step s event) := by
  cases event with
  | pass seconds => exact h.of_runs rfl rfl rfl fun _ hmem => .inl hmem
  | monitor id =>
    simp only [step, State.takes]
    split_ifs
    · exact h
    · refine h.of_runs rfl rfl rfl fun run hmem => ?_
      rcases mem_append.mp hmem with hmem | hmem
      · exact .inl hmem
      · rw [mem_singleton.mp hmem]
        exact .inr ⟨nofun, nofun, nofun⟩
  | read id =>
    simp only [step]
    split
    · unfold State.reads
      split_ifs
      · exact h.ends id
      · refine h.goes ⟨?_, ?_, nofun⟩
        · rintro _ ⟨⟩
          exact Nat.le_refl _
        · rintro _ ⟨⟩ _ _
          exact ⟨rfl, rfl⟩
    · exact h
  | answer id answer =>
    simp only [step]
    split
    · rename_i rid policy records hfound
      obtain ⟨hmem, hid⟩ := of_run? hfound
      cases hid
      cases hstage : decision s.now policy answer with
      | none => exact h.ends _
      | some stage => exact h.goes (faithful_decision (h.runs _ hmem) hstage)
    · exact h
  | choose id =>
    simp only [step]
    split
    · rename_i rid policy records hfound
      obtain ⟨hmem, hid⟩ := of_run? hfound
      cases hid
      have hold := h.runs _ hmem
      cases successor s.profiles policy.activeId with
      | none => exact h.ends _
      | some next =>
        refine h.goes ⟨hold.revision, hold.stored, ?_⟩
        rintro _ (⟨⟨⟩⟩ | ⟨_, ⟨⟩⟩)
        exact hold.failing policy (.inl rfl)
    · exact h
  | record id =>
    simp only [step]
    split
    · rename_i rid policy failed records hfound
      refine h.record failed (halone policy ?_)
      unfold State.recordedBy
      rw [hfound]
      rfl
    · exact h
  | switch id =>
    simp only [step]
    split
    · rename_i rid policy next records hfound
      obtain ⟨hmem, hid⟩ := of_run? hfound
      cases hid
      exact h.switch (h.runs _ hmem)
    · exact h
  | leave id => exact h.ends id
  | activate next => exact h.activate next
  | configure failureAction timeoutSeconds | settings => exact h.later (Nat.lt_succ_self _) rfl rfl
  | create profile | delete id =>
    simp only [step]
    split_ifs
    · exact h
    · exact h.of_runs rfl rfl rfl fun _ hmem => .inl hmem

theorem sound_start : Sound {} := ⟨nofun, nofun⟩

/-- **Failover after uninterrupted failure.** In a run whose records overtake no other run, every switch
is based on the failure that is stored when it is made, with nothing recorded in between. -/
theorem uninterrupted_of_run (events : List Event) (halone : check step Alone {} events = true) :
    ∀ before, before <+: events → ∀ switch ∈ (before.foldl step {}).switches,
      switch.Uninterrupted := by
  intro before hprefix
  have hsound := always_of_check step (fun s event _ h hok => @sound_step s h event hok) sound_start
    halone before hprefix
  exact hsound.switches

def failing : List Event :=
  [.create ⟨"a", 0⟩, .create ⟨"b", 1⟩, .activate (some "a"), .configure .next 3,
    .monitor 0, .read 0, .answer 0 (.counts 1 0), .record 0]

def failsOn : List Event :=
  failing ++ [.pass 5, .monitor 1, .read 1, .answer 1 (.counts 1 0), .choose 1, .switch 1]

/-- The switch of a run that nothing has overtaken. -/
theorem uninterrupted_of_run_failsOn :
    (failsOn.foldl step {}).row.activeId = some "b" ∧
      ∀ switch ∈ (failsOn.foldl step {}).switches, switch.Uninterrupted :=
  ⟨by decide, uninterrupted_of_run failsOn (by decide) failsOn (List.prefix_refl _)⟩

/-- The question of a run takes longer than its lock. Meanwhile another run finds the connection ready
and records that; then the first switches. -/
def recovers : List Event :=
  failing ++ [.pass 5, .monitor 1, .read 1, .pass 11, .monitor 2, .read 2, .answer 2 (.counts 1 1),
    .record 2, .answer 1 (.counts 1 0), .choose 1, .switch 1]

/-- A proxy that works again is switched away from. -/
theorem switch_after_recovery :
    ∃ switch ∈ (recovers.foldl step {}).switches, ¬ switch.Uninterrupted := by
  refine ⟨⟨⟨some "a", 3, .next, 3, some 0⟩, none, 1⟩, by decide, ?_⟩
  rintro ⟨-, hstored, -⟩
  cases hstored

end Api.ProxyMonitor
