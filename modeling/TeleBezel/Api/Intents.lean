import Mathlib.Order.Nat
import TeleBezel.Api.Reconcile
import TeleBezel.Lib.Transition

/-!
# The state machine of an account

Every change of a row is made under its lock: the owner's intents, the global changes of the
settings, and the confirmations of what the runtime has done. An intent counts
`desired_revision` up, so a confirmation that was asked for under an older revision finds the row
moved on and leaves it alone.
-/

namespace Api

open Reconcile (revised provisioned)

/-- The transitions of a row. Where the source draws a `uuid`, the transition has it. -/
inductive Change
  | logout (operation : Uuid)
  | abandonLogout (expected : AccountData) (operation : Uuid)
  | remove (operation : Uuid)
  | updateProxy (revision : ℕ) (proxy : Proxy) (effectiveConfigId operation : Uuid)
  /-- The row that was read when the runtime was asked, and what it answered. -/
  | confirm (expected : AccountData) (data : Snapshot)
  /-- `activateLocked`, as far as it concerns the row. -/
  | activate (effectiveConfigId operation : Uuid)
  /-- `SettingsRepository::update`, as far as it concerns the row. -/
  | settings (effectiveConfigId operation : Uuid)

namespace AccountData

variable {account : AccountData} {change : Change}

/-- What `mutate` or a global change leaves of a row. An exception rolls the transaction back. -/
def after (account : AccountData) : Change → AccountData
  | .logout operation => (account.logout operation).toOption.getD account
  | .abandonLogout expected operation => account.abandonLogout expected operation
  | .remove operation => account.remove operation
  | .updateProxy revision proxy effectiveConfigId operation =>
    (account.updateProxy revision proxy effectiveConfigId operation).toOption.getD account
  | .confirm expected data => account.confirm expected data
  | .activate effectiveConfigId operation =>
    revised (fun a => a.proxyId = none && a.lifecycle ≠ .removed) (fun _ => effectiveConfigId)
      (fun _ => operation) account
  | .settings effectiveConfigId operation =>
    revised (fun a => a.lifecycle ≠ .removed) (fun _ => effectiveConfigId) (fun _ => operation)
      account

def proxy (account : AccountData) : Option Uuid × Option Proxy × ℕ :=
  (account.proxyId, account.proxyConfig, account.proxyConfigVersion)

def Completed : AccountLifecycle → AccountLifecycle → Prop
  | .provisioning, .active | .logoutPending, .active | .removing, .removed => True
  | _, _ => False

/-- `applied_revision` is none, or a revision that the account has had. -/
def Ranged (account : AccountData) : Prop :=
  1 ≤ account.desiredRevision ∧
    ∀ revision, account.appliedRevision = some revision →
      1 ≤ revision ∧ revision ≤ account.desiredRevision

/-- An answer that reports an intent as completed, for the revision that the row has. -/
def Completes (before : AccountData) (change : Change) : Prop :=
  ∃ expected data, change = .confirm expected data ∧ data.completed = true ∧
    expected.desiredRevision = before.desiredRevision ∧
    expected.storageGeneration = before.storageGeneration ∧
    expected.effectiveConfigId = before.effectiveConfigId

/-- What a change may do to an account. -/
structure Lawful (before : AccountData) (change : Change) (after : AccountData) : Prop where
  /-- The revision never decreases. -/
  revision : before.desiredRevision ≤ after.desiredRevision
  /-- The lifecycle changes with the revision, unless it is confirmed. -/
  intent : before.lifecycle ≠ after.lifecycle →
    before.desiredRevision < after.desiredRevision ∨
      (∃ expected data, change = .confirm expected data) ∧
        Completed before.lifecycle after.lifecycle
  /-- The proxy changes with the revision, unless it is cleared with the account. -/
  proxy : before.proxy ≠ after.proxy →
    before.desiredRevision < after.desiredRevision ∨
      before.lifecycle = .removing ∧ after.lifecycle = .removed ∧ after.proxy = (none, none, 0)
  /-- The configuration changes with the revision. -/
  config : before.effectiveConfigId ≠ after.effectiveConfigId →
    before.desiredRevision < after.desiredRevision
  /-- Only an answer that reports the revision of the row marks it as applied. -/
  applied : before.appliedRevision ≠ after.appliedRevision →
    after.desiredRevision = before.desiredRevision ∧
      after.appliedRevision = some before.desiredRevision ∧
      ∃ expected data, change = .confirm expected data ∧
        data.appliedRevision = some before.desiredRevision
  /-- A late confirmation changes nothing. -/
  late : ∀ expected data, change = .confirm expected data →
    expected.desiredRevision ≠ before.desiredRevision ∨
      expected.storageGeneration ≠ before.storageGeneration ∨
      expected.effectiveConfigId ≠ before.effectiveConfigId →
    after = before
  /-- A removed account stays as it is. -/
  removed : before.lifecycle = .removed → after = before
  /-- A removal ends when it is completed. -/
  removing : before.lifecycle = .removing → after.lifecycle ≠ .removing →
    after.lifecycle = .removed ∧ Completes before change
  /-- A logout ends when it is completed, abandoned or overtaken by a removal. -/
  logoutPending : before.lifecycle = .logoutPending → after.lifecycle ≠ .logoutPending →
    Completes before change ∨ (∃ expected operation, change = .abandonLogout expected operation) ∨
      ∃ operation, change = .remove operation

theorem Lawful.refl (before : AccountData) (change : Change) : Lawful before change before where
  revision := Nat.le_refl _
  intent h := (h rfl).elim
  proxy h := (h rfl).elim
  config h := (h rfl).elim
  applied h := (h rfl).elim
  late _ _ _ _ := rfl
  removed _ := rfl
  removing h h' := (h' h).elim
  logoutPending h h' := (h' h).elim

theorem Lawful.of_intent {before after : AccountData}
    (hchange : ∀ expected data, change ≠ .confirm expected data)
    (hrevision : before.desiredRevision < after.desiredRevision)
    (happlied : after.appliedRevision = before.appliedRevision)
    (hremoved : before.lifecycle ≠ .removed)
    (hremoving : before.lifecycle = .removing → after.lifecycle = .removing)
    (hlogout : before.lifecycle = .logoutPending → after.lifecycle ≠ .logoutPending →
      (∃ expected operation, change = .abandonLogout expected operation) ∨
        ∃ operation, change = .remove operation) :
    Lawful before change after where
  revision := Nat.le_of_lt hrevision
  intent _ := .inl hrevision
  proxy _ := .inl hrevision
  config _ := hrevision
  applied h := (h happlied.symm).elim
  late expected data h := (hchange expected data h).elim
  removed h := (hremoved h).elim
  removing h h' := (h' (hremoving h)).elim
  logoutPending h h' := .inr (hlogout h h')

theorem lawful_logout (operation : Uuid) :
    Lawful account (.logout operation) (account.after (.logout operation)) := by
  cases hlifecycle : account.lifecycle
  case removed | removing | logoutPending =>
    have hafter : account.after (.logout operation) = account := by
      simp [after, logout, writable, hlifecycle, throw, throwThe, MonadExceptOf.throw, bind,
        Except.bind, pure, Except.pure, Except.toOption]
    rw [hafter]
    exact Lawful.refl _ _
  case provisioning | active =>
    apply Lawful.of_intent
    all_goals simp [after, logout, writable, hlifecycle, bind, Except.bind, pure, Except.pure,
      Except.toOption]

theorem lawful_abandonLogout (expected : AccountData) (operation : Uuid) :
    Lawful account (.abandonLogout expected operation)
      (account.after (.abandonLogout expected operation)) := by
  by_cases hguard : account.lifecycle ≠ .logoutPending ∨
      account.desiredRevision ≠ expected.desiredRevision ∨
      account.storageGeneration ≠ expected.storageGeneration
  · rw [after, abandonLogout, if_pos hguard]
    exact Lawful.refl _ _
  · rw [after, abandonLogout, if_neg hguard]
    have hlifecycle : account.lifecycle = .logoutPending := by
      by_contra hother
      exact hguard (.inl hother)
    apply Lawful.of_intent
    all_goals simp [hlifecycle]

theorem lawful_remove (operation : Uuid) :
    Lawful account (.remove operation) (account.after (.remove operation)) := by
  by_cases hguard : account.lifecycle = .removing ∨ account.lifecycle = .removed
  · rw [after, remove, if_pos hguard]
    exact Lawful.refl _ _
  · rw [after, remove, if_neg hguard]
    push Not at hguard
    apply Lawful.of_intent
    all_goals simp [hguard]

theorem lawful_updateProxy (revision : ℕ) (proxy : Proxy) (effectiveConfigId operation : Uuid) :
    Lawful account (.updateProxy revision proxy effectiveConfigId operation)
      (account.after (.updateProxy revision proxy effectiveConfigId operation)) := by
  by_cases hguard : (account.lifecycle = .provisioning ∨ account.lifecycle = .active) ∧
      account.desiredRevision = revision
  · obtain ⟨hlifecycle, rfl⟩ := hguard
    apply Lawful.of_intent
    all_goals rcases hlifecycle with hlifecycle | hlifecycle
    all_goals simp [after, updateProxy, writable, hlifecycle, bind, Except.bind, pure, Except.pure,
      Except.toOption]
  · have hafter : account.after (.updateProxy revision proxy effectiveConfigId operation) =
        account := by
      cases hlifecycle : account.lifecycle
      all_goals simp_all [after, updateProxy, writable, throw, throwThe, MonadExceptOf.throw, bind,
        Except.bind, pure, Except.pure, Except.toOption]
    rw [hafter]
    exact Lawful.refl _ _

theorem lawful_revised {concerned : AccountData → Bool} (effectiveConfigId operation : Uuid → Uuid)
    (hconcerned : concerned account = true → account.lifecycle ≠ .removed)
    (hchange : ∀ expected data, change ≠ .confirm expected data) :
    Lawful account change (revised concerned effectiveConfigId operation account) := by
  by_cases hguard : concerned account = true
  · rw [revised, if_pos hguard]
    refine Lawful.of_intent hchange (Nat.lt_succ_self _) rfl (hconcerned hguard) ?_ ?_
    · exact fun h => h
    · exact fun h h' => (h' h).elim
  · rw [revised, if_neg hguard]
    exact Lawful.refl _ _

variable (current : AccountData)

def Reported (data : Snapshot) (row : AccountData) : Prop :=
  ∃ applied operation generation,
    row = { current with
      appliedRevision := applied
      operationId := operation
      authorizationGeneration := generation } ∧
    (applied = current.appliedRevision ∨
      applied = some current.desiredRevision ∧
        data.appliedRevision = some current.desiredRevision) ∧
    (operation = current.operationId ∨ operation = none) ∧
    current.authorizationGeneration ≤ generation

theorem reported_applySnapshot (data : Snapshot) :
    Reported current data (current.applySnapshot data) := by
  unfold applySnapshot
  by_cases hgeneration : data.generation.any (· ≠ current.storageGeneration) = true
  · rw [if_pos hgeneration]
    exact ⟨_, _, _, rfl, .inl rfl, .inl rfl, Nat.le_refl _⟩
  · rw [if_neg hgeneration]
    by_cases hreports : data.appliedRevision = some current.desiredRevision ∧
        data.effectiveConfigId = some current.effectiveConfigId
    · rw [if_pos hreports]
      refine ⟨_, _, _, rfl, .inr ⟨hreports.1, hreports.1⟩, ?_, Nat.le_max_left _ _⟩
      by_cases hoperation : data.operationId = none
      · exact .inr (if_pos hoperation)
      · exact .inl (if_neg hoperation)
    · rw [if_neg hreports]
      exact ⟨_, _, _, rfl, .inl rfl, .inl rfl, Nat.le_max_left _ _⟩

variable {data : Snapshot}

/-- **Inversion of `confirm`.** A confirmation that is taken reports what the runtime has done, and
completes the intent of the row or leaves it. -/
theorem confirm_cases {current expected : AccountData} (h : current.confirms expected data = true) :
    ∃ row, Reported current data row ∧
      (data.completed = true ∧ current.lifecycle = .removing ∧
          current.confirm expected data =
            { current with
              proxyId := none
              proxyConfig := none
              proxyConfigVersion := 0
              lifecycle := .removed
              operationId := none
              appliedRevision := row.appliedRevision } ∨
        data.completed = true ∧ current.lifecycle = .logoutPending ∧
          current.confirm expected data = { row with lifecycle := .active, operationId := none } ∨
        current.lifecycle = .provisioning ∧ row.appliedRevision = some current.desiredRevision ∧
          current.confirm expected data = { row with lifecycle := .active, operationId := none } ∨
        current.confirm expected data = { row with operationId := none } ∨
        current.confirm expected data = row) := by
  have hexpected : current.desiredRevision = expected.desiredRevision := by
    simp only [confirms, Bool.and_eq_true, decide_eq_true_eq] at h
    exact h.1.1.1.2
  obtain ⟨applied, operation, generation, hrow, happlied, hoperation, hgeneration⟩ :=
    reported_applySnapshot current data
  set marked := if data.appliedRevision = some expected.desiredRevision then
    { current.applySnapshot data with appliedRevision := data.appliedRevision }
    else current.applySnapshot data with hmarked
  refine ⟨marked, ?_, ?_⟩
  · by_cases hreports : data.appliedRevision = some expected.desiredRevision
    · rw [hmarked, if_pos hreports, hrow]
      rw [← hexpected] at hreports
      exact ⟨_, _, _, rfl, .inr ⟨hreports, hreports⟩, hoperation, hgeneration⟩
    · rw [hmarked, if_neg hreports, hrow]
      exact ⟨_, _, _, rfl, happlied, hoperation, hgeneration⟩
  · have hconfirm : current.confirm expected data =
        if data.completed ∧ current.lifecycle = .removing then
          { current with
            proxyId := none
            proxyConfig := none
            proxyConfigVersion := 0
            lifecycle := .removed
            operationId := none
            appliedRevision := marked.appliedRevision }
        else if data.completed ∧ current.lifecycle = .logoutPending then
          { marked with lifecycle := .active, operationId := none }
        else if current.lifecycle = .provisioning ∧
            marked.appliedRevision = some current.desiredRevision then
          { marked with lifecycle := .active, operationId := none }
        else if data.completed ∧ current.lifecycle = .active then { marked with operationId := none }
        else marked := by
      rw [confirm, if_neg (not_not_intro h)]
    rw [hconfirm]
    split_ifs with hremoving hlogout hprovisioning hactive
    · exact .inl ⟨hremoving.1, hremoving.2, rfl⟩
    · exact .inr (.inl ⟨hlogout.1, hlogout.2, rfl⟩)
    · exact .inr (.inr (.inl ⟨hprovisioning.1, hprovisioning.2, rfl⟩))
    · exact .inr (.inr (.inr (.inl rfl)))
    · exact .inr (.inr (.inr (.inr rfl)))

theorem confirms_iff (expected : AccountData) (data : Snapshot) :
    current.confirms expected data = true ↔
      current.lifecycle ≠ .removed ∧ current.desiredRevision = expected.desiredRevision ∧
        current.storageGeneration = expected.storageGeneration ∧
        current.effectiveConfigId = expected.effectiveConfigId ∧
        data.effectiveConfigId.all (· = current.effectiveConfigId) = true := by
  simp only [confirms, Bool.and_eq_true, decide_eq_true_eq, and_assoc]

theorem confirm_of_not_confirms {current expected : AccountData}
    (h : ¬ current.confirms expected data = true) : current.confirm expected data = current := by
  rw [confirm, if_pos h]

theorem Lawful.of_report {before expected row after : AccountData}
    (h : before.confirms expected data = true) (hrow : Reported before data row)
    (hrevision : after.desiredRevision = before.desiredRevision)
    (hconfig : after.effectiveConfigId = before.effectiveConfigId)
    (happlied : after.appliedRevision = row.appliedRevision) (hproxy : before.proxy ≠ after.proxy →
      before.lifecycle = .removing ∧ after.lifecycle = .removed ∧ after.proxy = (none, none, 0))
    (hlifecycle : before.lifecycle ≠ after.lifecycle → Completed before.lifecycle after.lifecycle ∧
        (before.lifecycle = .provisioning ∨ data.completed = true)) :
    Lawful before (.confirm expected data) after := by
  obtain ⟨hpresent, hsame, hstorage, hid, -⟩ := (confirms_iff _ _ _).mp h
  have hcompletes : data.completed = true → Completes before (.confirm expected data) := by
    intro hcompleted
    exact ⟨expected, data, rfl, hcompleted, hsame.symm, hstorage.symm, hid.symm⟩
  refine ⟨hrevision.ge, ?_, fun hother => .inr (hproxy hother), fun hother => (hother hconfig.symm).elim,
    ?_, ?_, fun hremoved => (hpresent hremoved).elim, ?_, ?_⟩
  · exact fun hother => .inr ⟨⟨expected, data, rfl⟩, (hlifecycle hother).1⟩
  · intro hother
    obtain ⟨applied, operation, generation, rfl, hsource, -⟩ := hrow
    rw [happlied] at hother ⊢
    rcases hsource with rfl | ⟨rfl, hreports⟩
    · exact (hother rfl).elim
    · exact ⟨hrevision, rfl, expected, data, rfl, hreports⟩
  · rintro expected' data' hchange hlate
    cases hchange
    rcases hlate with hlate | hlate | hlate
    · exact (hlate hsame.symm).elim
    · exact (hlate hstorage.symm).elim
    · exact (hlate hid.symm).elim
  · intro hremoving hleft
    obtain ⟨hcompleted, hanswer⟩ := hlifecycle (by rw [hremoving]; exact hleft.symm)
    rw [hremoving] at hcompleted hanswer
    refine ⟨?_, hcompletes (hanswer.resolve_left nofun)⟩
    revert hcompleted
    cases after.lifecycle <;> simp [Completed]
  · intro hlogout hleft
    obtain ⟨-, hanswer⟩ := hlifecycle (by rw [hlogout]; exact hleft.symm)
    rw [hlogout] at hanswer
    exact .inl (hcompletes (hanswer.resolve_left nofun))

theorem lawful_confirm (expected : AccountData) (data : Snapshot) :
    Lawful account (.confirm expected data) (account.confirm expected data) := by
  by_cases htaken : account.confirms expected data = true
  · obtain ⟨row, hrow, hcases⟩ := confirm_cases htaken
    have hkept := hrow
    obtain ⟨applied, operation, generation, rfl, -⟩ := hkept
    rcases hcases with ⟨hdone, hwas, heq⟩ | ⟨hdone, hwas, heq⟩ | ⟨hwas, -, heq⟩ | heq | heq
    all_goals
      rw [heq]
      refine Lawful.of_report htaken hrow rfl rfl rfl ?_ ?_
    · exact fun _ => ⟨hwas, rfl, rfl⟩
    · exact fun _ => ⟨by rw [hwas]; trivial, .inr hdone⟩
    · exact fun hother => (hother rfl).elim
    · exact fun _ => ⟨by rw [hwas]; trivial, .inr hdone⟩
    · exact fun hother => (hother rfl).elim
    · exact fun _ => ⟨by rw [hwas]; trivial, .inl hwas⟩
    all_goals exact fun hother => (hother rfl).elim
  · rw [confirm_of_not_confirms htaken]
    exact Lawful.refl _ _

theorem lawful_after (account : AccountData) (change : Change) :
    Lawful account change (account.after change) := by
  cases change with
  | logout operation => exact lawful_logout operation
  | abandonLogout expected operation => exact lawful_abandonLogout expected operation
  | remove operation => exact lawful_remove operation
  | updateProxy revision proxy effectiveConfigId operation =>
    exact lawful_updateProxy revision proxy effectiveConfigId operation
  | confirm expected data => exact lawful_confirm expected data
  | activate effectiveConfigId operation =>
    rw [after]
    refine lawful_revised _ _ (fun hconcerned => ?_) (fun _ _ h => nomatch h)
    simp only [Bool.and_eq_true, decide_eq_true_eq] at hconcerned
    exact hconcerned.2
  | settings effectiveConfigId operation =>
    rw [after]
    refine lawful_revised _ _ (fun hconcerned => ?_) (fun _ _ h => nomatch h)
    exact of_decide_eq_true hconcerned

/-! ### Runs -/

theorem ranged_provisioned (id storageGeneration effectiveConfigId : Uuid) (proxy : Proxy) :
    Ranged (provisioned id storageGeneration effectiveConfigId proxy) :=
  ⟨Nat.le_refl _, nofun⟩

theorem Ranged.after (h : Ranged account) (change : Change) :
    Ranged (account.after change) := by
  have hlawful := lawful_after account change
  obtain ⟨hpositive, hrange⟩ := h
  refine ⟨hpositive.trans hlawful.revision, fun revision hrevision => ?_⟩
  by_cases hsame : account.appliedRevision = (account.after change).appliedRevision
  · obtain ⟨hfirst, hlast⟩ := hrange revision (hsame.trans hrevision)
    exact ⟨hfirst, hlast.trans hlawful.revision⟩
  · obtain ⟨hdesired, happlied, -⟩ := hlawful.applied hsame
    rw [hrevision, Option.some_inj] at happlied
    rw [happlied, hdesired]
    exact ⟨hpositive, Nat.le_refl _⟩

/-- **The state machine of an account.** In every run of transitions from the creation of an account
on, with any row as the expected one of a confirmation and any answer of the runtime,
`applied_revision` stays in its range and whatever comes next is lawful. -/
theorem lawful_of_run (id storageGeneration effectiveConfigId : Uuid) (proxy : Proxy)
    (changes : List Change) :
    Ranged (changes.foldl AccountData.after
        (provisioned id storageGeneration effectiveConfigId proxy)) ∧
      ∀ change, Lawful
        (changes.foldl AccountData.after
          (provisioned id storageGeneration effectiveConfigId proxy))
        change
        ((changes ++ [change]).foldl AccountData.after
          (provisioned id storageGeneration effectiveConfigId proxy)) := by
  constructor
  · induction changes using List.reverseRecOn with
    | nil => exact ranged_provisioned _ _ _ _
    | append_singleton changes change ih =>
      rw [List.foldl_append]
      exact ih.after change
  · intro change
    rw [List.foldl_append]
    exact lawful_after _ change

/-- A removal that is confirmed clears the proxy of the account and leaves its revision. -/
theorem removal_clears_proxy :
    ¬ ∀ (id storageGeneration effectiveConfigId : Uuid) (proxy : Proxy) (changes : List Change)
        (change : Change),
      let account := changes.foldl AccountData.after
        (provisioned id storageGeneration effectiveConfigId proxy)
      account.proxy ≠ (account.after change).proxy →
        account.desiredRevision < (account.after change).desiredRevision := by
  intro h
  have hconfirmed := h 1 2 3 { id := some 4, mode := .direct } [.remove 5]
    (.confirm
      ((provisioned 1 2 3 { id := some 4, mode := .direct }).after (.remove 5))
      { appliedRevision := some 2, completed := true })
  revert hconfirmed
  decide

end AccountData

end Api
