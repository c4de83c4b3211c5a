import TeleBezel.Api.Intents

/-!
# Snapshots of the runtime

`find` and `paginate` read the row of an account, ask the runtime for a snapshot and write what it
tells back to the row, without holding a lock in between. The `UPDATE` is refused when the
revision, the configuration or the authorization generation has moved on, but not when another
process has confirmed the very revision in the meantime: then a snapshot that does not report
that itself takes the confirmation back.
-/

namespace Api

open Reconcile (provisioned)

namespace AccountData

/-- The `WHERE` of `persistSnapshotState`, with the scope that leaves deleted rows out. -/
def accepts (current account : AccountData) : Prop :=
  current.storageGeneration = account.storageGeneration ∧
    current.desiredRevision = account.desiredRevision ∧
    current.effectiveConfigId = account.effectiveConfigId ∧
    current.authorizationGeneration ≤ account.authorizationGeneration ∧
    current.lifecycle ≠ .removed

instance (current account : AccountData) : Decidable (current.accepts account) :=
  inferInstanceAs (Decidable (_ ∧ _))

/-- `persistSnapshotState`, on the row. -/
def persisted (current account : AccountData) : AccountData :=
  if current.accepts account then
    { current with
      appliedRevision := account.appliedRevision
      operationId := account.operationId
      authorizationGeneration := account.authorizationGeneration }
  else current

/-- A snapshot that reports the revision of a row as applied, with its configuration. -/
def Reports (account : AccountData) (snapshot : Snapshot) : Prop :=
  ¬ snapshot.generation.any (· ≠ account.storageGeneration) ∧
    snapshot.appliedRevision = some account.desiredRevision ∧
    snapshot.effectiveConfigId = some account.effectiveConfigId

instance (account : AccountData) (snapshot : Snapshot) : Decidable (account.Reports snapshot) :=
  inferInstanceAs (Decidable (_ ∧ _))

/-- What a row keeps: its authorization generation, and, while its revision stays, what was
confirmed of it. -/
structure Retains (before after : AccountData) : Prop where
  /-- The revision never decreases, so it stays the same without a break. -/
  revision : before.desiredRevision ≤ after.desiredRevision
  generation : before.authorizationGeneration ≤ after.authorizationGeneration
  applied : before.desiredRevision = after.desiredRevision →
    ∀ revision, before.appliedRevision = some revision →
      ∃ later, after.appliedRevision = some later ∧ revision ≤ later
  operation : before.desiredRevision = after.desiredRevision →
    before.operationId = none → after.operationId = none

theorem Retains.refl (account : AccountData) : Retains account account where
  revision := Nat.le_refl _
  generation := Nat.le_refl _
  applied _ revision h := ⟨revision, h, Nat.le_refl _⟩
  operation _ h := h

theorem Retains.trans {first second third : AccountData} (h : Retains first second)
    (h' : Retains second third) : Retains first third := by
  have hfirst := h.revision
  have hsecond := h'.revision
  refine ⟨hfirst.trans hsecond, h.generation.trans h'.generation, ?_, ?_⟩
  · intro hsame revision hrevision
    obtain ⟨middle, hmiddle, hle⟩ := h.applied (by omega) revision hrevision
    obtain ⟨last, hlast, hle'⟩ := h'.applied (by omega) middle hmiddle
    exact ⟨last, hlast, hle.trans hle'⟩
  · intro hsame hnone
    exact h'.operation (by omega) (h.operation (by omega) hnone)

theorem Retains.of_intent {before after : AccountData}
    (hrevision : before.desiredRevision < after.desiredRevision)
    (hgeneration : before.authorizationGeneration ≤ after.authorizationGeneration) :
    Retains before after where
  revision := Nat.le_of_lt hrevision
  generation := hgeneration
  applied h := (Nat.ne_of_lt hrevision h).elim
  operation h := (Nat.ne_of_lt hrevision h).elim

theorem intent_after (account : AccountData) {change : Change}
    (hchange : ∀ expected data, change ≠ .confirm expected data) :
    account.after change = account ∨
      account.desiredRevision < (account.after change).desiredRevision ∧
        account.authorizationGeneration ≤ (account.after change).authorizationGeneration := by
  cases change with
  | confirm expected data => exact (hchange expected data rfl).elim
  | logout operation =>
    cases hlifecycle : account.lifecycle
    all_goals simp [after, logout, writable, hlifecycle, throw, throwThe, MonadExceptOf.throw, bind,
      Except.bind, pure, Except.pure, Except.toOption]
  | abandonLogout expected operation =>
    rw [after, abandonLogout]
    split_ifs
    · exact .inl rfl
    · exact .inr ⟨Nat.lt_succ_self _, Nat.le_refl _⟩
  | remove operation =>
    rw [after, remove]
    split_ifs
    · exact .inl rfl
    · exact .inr ⟨Nat.lt_succ_self _, Nat.le_refl _⟩
  | updateProxy revision proxy effectiveConfigId operation =>
    cases hlifecycle : account.lifecycle
    all_goals by_cases hrevision : account.desiredRevision = revision
    all_goals simp [after, updateProxy, writable, hlifecycle, hrevision, throw, throwThe,
      MonadExceptOf.throw, bind, Except.bind, pure, Except.pure, Except.toOption]
  | activate effectiveConfigId operation | settings effectiveConfigId operation =>
    rw [after, Reconcile.revised]
    split_ifs
    · exact .inr ⟨Nat.lt_succ_self _, Nat.le_refl _⟩
    · exact .inl rfl

theorem Retains.of_reported {before row : AccountData} {data : Snapshot} (hrange : Ranged before)
    (h : Reported before data row) : Retains before row := by
  obtain ⟨applied, operation, generation, rfl, happlied, hoperation, hgeneration⟩ := h
  refine ⟨Nat.le_refl _, hgeneration, fun _ revision hrevision => ?_, fun _ hnone => ?_⟩
  · rcases happlied with rfl | ⟨rfl, -⟩
    · exact ⟨revision, hrevision, Nat.le_refl _⟩
    · exact ⟨_, rfl, (hrange.2 revision hrevision).2⟩
  · rcases hoperation with rfl | rfl
    · exact hnone
    · rfl

theorem Retains.after {account : AccountData} (hrange : Ranged account) (change : Change) :
    Retains account (account.after change) := by
  by_cases hchange : ∃ expected data, change = .confirm expected data
  · obtain ⟨expected, data, rfl⟩ := hchange
    rw [AccountData.after]
    by_cases htaken : account.confirms expected data = true
    · obtain ⟨row, hrow, hcases⟩ := confirm_cases htaken
      have hkept := Retains.of_reported hrange hrow
      rcases hcases with ⟨-, -, heq⟩ | ⟨-, -, heq⟩ | ⟨-, -, heq⟩ | heq | heq
      all_goals rw [heq]
      · refine ⟨Nat.le_refl _, Nat.le_refl _, fun hsame => ?_, fun _ _ => rfl⟩
        obtain ⟨applied, operation, generation, rfl, -⟩ := hrow
        exact hkept.applied hsame
      · exact ⟨hkept.revision, hkept.generation, hkept.applied, fun _ _ => rfl⟩
      · exact ⟨hkept.revision, hkept.generation, hkept.applied, fun _ _ => rfl⟩
      · exact ⟨hkept.revision, hkept.generation, hkept.applied, fun _ _ => rfl⟩
      · exact hkept
    · rw [confirm_of_not_confirms htaken]
      exact Retains.refl account
  · push Not at hchange
    rcases intent_after account hchange with hsame | ⟨hrevision, hgeneration⟩
    · rw [hsame]
      exact Retains.refl account
    · exact Retains.of_intent hrevision hgeneration

end AccountData

/-! ### Readers -/

namespace Snapshots

open AccountData Transition

/-- The row of an account, and what the processes that ask the runtime about it have read. -/
structure Rows where
  row : AccountData
  readers : ℕ → Option AccountData := fun _ => none

inductive Event
  | change (change : Change)
  /-- `find` or `paginate` reads the row. -/
  | load (reader : ℕ)
  /-- The runtime has answered with a snapshot, and `persistSnapshotState` is run. -/
  | persist (reader : ℕ) (snapshot : Snapshot)
  /-- The runtime reports an error, or has no snapshot of the account. -/
  | leave (reader : ℕ)

/-- Everything that can happen. A row that was removed is not read, and a process that has read no
row has nothing to write. -/
def step (s : Rows) : Event → Rows
  | .change change => { s with row := s.row.after change }
  | .load reader =>
    if s.row.lifecycle = .removed then s
    else { s with readers := Function.update s.readers reader (some s.row) }
  | .persist reader snapshot =>
    match s.readers reader with
    | some held =>
      { row := s.row.persisted (held.applySnapshot snapshot)
        readers := Function.update s.readers reader none }
    | none => s
  | .leave reader => { s with readers := Function.update s.readers reader none }

/-- A snapshot that is written to a row undoes no confirmation of it: what the row has been found
to have applied since the reader read it, and the operation that was cleared since, the snapshot
reports itself. -/
def Undisturbed (row held : AccountData) (snapshot : Snapshot) : Prop :=
  (row.appliedRevision ≠ held.appliedRevision → held.Reports snapshot) ∧
    (row.operationId = none → held.operationId ≠ none →
      held.Reports snapshot ∧ snapshot.operationId = none)

instance (row held : AccountData) (snapshot : Snapshot) :
    Decidable (Undisturbed row held snapshot) :=
  inferInstanceAs (Decidable (_ ∧ _))

/-- A snapshot that is stored is not older than what has changed since it was taken. -/
def Timely (s : Rows) : Event → Prop
  | .persist reader snapshot => ∀ held ∈ s.readers reader,
      s.row.accepts (held.applySnapshot snapshot) → Undisturbed s.row held snapshot
  | _ => True

instance (s : Rows) : (e : Event) → Decidable (Timely s e)
  | .persist reader _ => inferInstanceAs (Decidable (∀ held ∈ s.readers reader, _))
  | .change _ | .load _ | .leave _ => inferInstanceAs (Decidable True)

/-- What a reader has read: an earlier row, whose revision has at most been applied since. -/
structure Earlier (row held : AccountData) : Prop where
  ranged : Ranged held
  revision : held.desiredRevision ≤ row.desiredRevision
  applied : held.desiredRevision = row.desiredRevision →
    row.appliedRevision = held.appliedRevision ∨ row.appliedRevision = some row.desiredRevision

structure Sound (s : Rows) : Prop where
  ranged : Ranged s.row
  earlier : ∀ reader held, s.readers reader = some held → Earlier s.row held

variable {row held : AccountData} {snapshot : Snapshot} {s : Rows}

theorem applySnapshot_of_reports (h : held.Reports snapshot) :
    (held.applySnapshot snapshot).appliedRevision = some held.desiredRevision ∧
      (held.applySnapshot snapshot).operationId =
        if snapshot.operationId = none then none else held.operationId := by
  obtain ⟨hgeneration, happlied, hconfig⟩ := h
  rw [applySnapshot, if_neg hgeneration]
  rw [if_pos ⟨happlied, hconfig⟩]
  exact ⟨happlied, rfl⟩

theorem applySnapshot_of_not_reports (h : ¬ held.Reports snapshot) :
    (held.applySnapshot snapshot).appliedRevision = held.appliedRevision ∧
      (held.applySnapshot snapshot).operationId = held.operationId := by
  rw [applySnapshot]
  by_cases hgeneration : snapshot.generation.any (· ≠ held.storageGeneration) = true
  · rw [if_pos hgeneration]
    exact ⟨rfl, rfl⟩
  · rw [if_neg hgeneration]
    rw [if_neg fun hreports => h ⟨hgeneration, hreports⟩]
    exact ⟨rfl, rfl⟩

theorem applySnapshot_desiredRevision :
    (held.applySnapshot snapshot).desiredRevision = held.desiredRevision := by
  obtain ⟨_, _, _, heq, -⟩ := reported_applySnapshot held snapshot
  rw [heq]

theorem applied_of_undisturbed (hsame : held.desiredRevision = row.desiredRevision)
    (h : Undisturbed row held snapshot) :
    (held.applySnapshot snapshot).appliedRevision = row.appliedRevision ∨
      (held.applySnapshot snapshot).appliedRevision = some row.desiredRevision := by
  by_cases hreports : held.Reports snapshot
  · exact .inr (hsame ▸ (applySnapshot_of_reports hreports).1)
  · have happlied : row.appliedRevision = held.appliedRevision := by
      by_contra hother
      exact hreports (h.1 hother)
    exact .inl ((applySnapshot_of_not_reports hreports).1.trans happlied.symm)

theorem retains_persist_iff (hrange : Ranged row) (hheld : Earlier row held) :
    Retains row (row.persisted (held.applySnapshot snapshot)) ↔
      (row.accepts (held.applySnapshot snapshot) → Undisturbed row held snapshot) := by
  by_cases haccepts : row.accepts (held.applySnapshot snapshot)
  · have hsame : held.desiredRevision = row.desiredRevision :=
      applySnapshot_desiredRevision.symm.trans haccepts.2.1.symm
    rw [persisted, if_pos haccepts]
    constructor
    · refine fun h _ => ⟨fun hother => ?_, fun hnone hsome => ?_⟩
      · -- the row has been confirmed since: what was read is below its revision
        by_contra hreports
        have hconfirmed := (hheld.applied hsame).resolve_left hother
        obtain ⟨later, hlater, hle⟩ := h.applied rfl _ hconfirmed
        replace hlater := (applySnapshot_of_not_reports hreports).1.symm.trans hlater
        have hge := (hheld.ranged.2 later hlater).2
        rw [hconfirmed, hlater, show later = row.desiredRevision by omega] at hother
        exact hother rfl
      · have hcleared := h.operation rfl hnone
        by_cases hreports : held.Reports snapshot
        · refine ⟨hreports, ?_⟩
          by_contra hrunning
          rw [(applySnapshot_of_reports hreports).2, if_neg hrunning] at hcleared
          exact hsome hcleared
        · rw [(applySnapshot_of_not_reports hreports).2] at hcleared
          exact (hsome hcleared).elim
    · intro h
      have hundisturbed := h haccepts
      refine ⟨Nat.le_refl _, haccepts.2.2.2.1, fun _ revision hrevision => ?_, fun _ hnone => ?_⟩
      · rcases applied_of_undisturbed hsame hundisturbed with heq | heq
        · exact ⟨revision, heq.trans hrevision, Nat.le_refl _⟩
        · exact ⟨_, heq, (hrange.2 revision hrevision).2⟩
      · by_cases hread : held.operationId = none
        · by_cases hreports : held.Reports snapshot
          · rw [(applySnapshot_of_reports hreports).2, hread, ite_self]
          · rw [(applySnapshot_of_not_reports hreports).2, hread]
        · obtain ⟨hreports, hcleared⟩ := hundisturbed.2 hnone hread
          exact (applySnapshot_of_reports hreports).2.trans (if_pos hcleared)
  · rw [persisted, if_neg haccepts]
    exact iff_of_true (Retains.refl row) fun h => (haccepts h).elim

theorem Earlier.of_applied {row' : AccountData} (h : Earlier row held)
    (hrevision : row.desiredRevision ≤ row'.desiredRevision)
    (happlied : row.desiredRevision = row'.desiredRevision →
      row'.appliedRevision = row.appliedRevision ∨
        row'.appliedRevision = some row'.desiredRevision) :
    Earlier row' held := by
  have hread := h.revision
  refine ⟨h.ranged, hread.trans hrevision, fun hsame => ?_⟩
  rcases happlied (by omega) with heq | heq
  · rw [heq, show row'.desiredRevision = row.desiredRevision by omega]
    exact h.applied (by omega)
  · exact .inr heq

theorem Sound.of_applied {row' : AccountData} {readers : ℕ → Option AccountData} (h : Sound s)
    (hrange : Ranged row') (hrevision : s.row.desiredRevision ≤ row'.desiredRevision)
    (happlied : s.row.desiredRevision = row'.desiredRevision →
      row'.appliedRevision = s.row.appliedRevision ∨
        row'.appliedRevision = some row'.desiredRevision)
    (hreaders : ∀ reader held, readers reader = some held → s.readers reader = some held) :
    Sound { row := row', readers } where
  ranged := hrange
  earlier reader held hheld :=
    (h.earlier reader held (hreaders reader held hheld)).of_applied hrevision happlied

theorem of_update_none {reader reader' : ℕ}
    (h : Function.update s.readers reader none reader' = some held) :
    s.readers reader' = some held := by
  rw [Function.update_apply] at h
  split_ifs at h
  exact h

theorem sound_step (h : Sound s) {e : Event} (htimely : Timely s e) : Sound (step s e) := by
  cases e with
  | change change =>
    have hlawful := lawful_after s.row change
    refine h.of_applied (h.ranged.after change) hlawful.revision (fun _ => ?_) fun _ _ => id
    by_cases hsame : s.row.appliedRevision = (s.row.after change).appliedRevision
    · exact .inl hsame.symm
    · obtain ⟨hrevision, happlied, -⟩ := hlawful.applied hsame
      exact .inr (hrevision ▸ happlied)
  | load reader =>
    rw [step]
    split_ifs with hremoved
    · exact h
    · refine ⟨h.ranged, fun reader' held hheld => ?_⟩
      dsimp only at hheld
      rw [Function.update_apply] at hheld
      split_ifs at hheld with hreader
      · cases hheld
        exact ⟨h.ranged, Nat.le_refl _, fun _ => .inl rfl⟩
      · exact h.earlier reader' held hheld
  | leave reader => exact ⟨h.ranged, fun reader' held hheld => h.earlier _ _ (of_update_none hheld)⟩
  | persist reader snapshot =>
    rw [step]
    cases hreader : s.readers reader with
    | none => exact h
    | some held =>
      dsimp only
      by_cases haccepts : s.row.accepts (held.applySnapshot snapshot)
      · have hheld := h.earlier reader held hreader
        have hsame : held.desiredRevision = s.row.desiredRevision :=
          applySnapshot_desiredRevision.symm.trans haccepts.2.1.symm
        have happlied := applied_of_undisturbed hsame (htimely held hreader haccepts)
        rw [persisted, if_pos haccepts]
        refine h.of_applied ⟨h.ranged.1, fun revision hrevision => ?_⟩ (Nat.le_refl _)
          (fun _ => happlied) fun _ _ => of_update_none
        rcases happlied with heq | heq
        · exact h.ranged.2 revision (heq.symm.trans hrevision)
        · cases heq.symm.trans hrevision
          exact ⟨h.ranged.1, Nat.le_refl _⟩
      · rw [persisted, if_neg haccepts]
        exact ⟨h.ranged, fun reader' held hheld => h.earlier _ _ (of_update_none hheld)⟩

theorem retains_step_iff (h : Sound s) (e : Event) :
    Retains s.row (step s e).row ↔ Timely s e := by
  cases e with
  | change change => exact iff_of_true (Retains.after h.ranged change) trivial
  | load reader =>
    refine iff_of_true ?_ trivial
    rw [step]
    split_ifs <;> exact Retains.refl _
  | leave reader => exact iff_of_true (Retains.refl _) trivial
  | persist reader snapshot =>
    rw [step, Timely]
    cases hreader : s.readers reader with
    | none =>
      refine iff_of_true (Retains.refl s.row) ?_
      intro held hheld
      cases hheld
    | some held =>
      rw [retains_persist_iff h.ranged (h.earlier reader held hreader)]
      simp only [Option.mem_some_iff, forall_eq']

def created (id storageGeneration effectiveConfigId : Uuid) (proxy : Proxy) : Rows where
  row := provisioned id storageGeneration effectiveConfigId proxy

/-- **What was confirmed.** In every run from the creation of an account on, no confirmation is taken
back exactly when every snapshot that is written reports itself what has been confirmed since its
reader read the row. -/
theorem retained_of_run (id storageGeneration effectiveConfigId : Uuid) (proxy : Proxy)
    (events : List Event) :
    (∀ first next, first ++ next <+: events →
      Retains (first.foldl step (created id storageGeneration effectiveConfigId proxy)).row
        ((first ++ next).foldl step (created id storageGeneration effectiveConfigId proxy)).row) ↔
      check step Timely (created id storageGeneration effectiveConfigId proxy) events = true := by
  have hsound : Sound (created id storageGeneration effectiveConfigId proxy) :=
    ⟨ranged_provisioned _ _ _ _, fun _ _ h => nomatch h⟩
  exact @related_iff_check Rows Event step Timely _ Sound (fun s t => Retains s.row t.row)
    (fun s => Retains.refl s.row) (fun _ _ _ => Retains.trans)
    (fun _ e hs => retains_step_iff hs e) (fun _ _ hs he => sound_step hs he) _ hsound events

/-- An account is logged out, a process reads its row and asks the runtime, which has not begun with
it. The logout is confirmed, and the process writes what it has read. -/
def overtaken : List Event :=
  let pending := (provisioned 1 2 3 { mode := .inherit }).after (.logout 4)
  let begun : Snapshot :=
    { generation := some 2
      authorizationGeneration := some 1
      appliedRevision := some 1
      effectiveConfigId := some 3 }
  let done : Snapshot :=
    { begun with
      authorizationGeneration := some 2
      appliedRevision := some 2
      completed := true }
  [.change (.logout 4), .load 0, .change (.confirm pending done), .persist 0 begun]

/-- The confirmation is taken back. -/
theorem confirmation_undone :
    let before := (overtaken.take 3).foldl step (created 1 2 3 { mode := .inherit })
    let after := overtaken.foldl step (created 1 2 3 { mode := .inherit })
    (before.row.desiredRevision = 2 ∧ after.row.desiredRevision = 2) ∧
      (before.row.appliedRevision = some 2 ∧ after.row.appliedRevision = none) ∧
      (before.row.operationId = none ∧ after.row.operationId = some 4) ∧
      ¬ ∀ first next, first ++ next <+: overtaken →
        Retains (first.foldl step (created 1 2 3 { mode := .inherit })).row
          ((first ++ next).foldl step (created 1 2 3 { mode := .inherit })).row := by
  refine ⟨by decide, by decide, by decide, fun h => ?_⟩
  have hretains := h (overtaken.take 3) (overtaken.drop 3) (by simp)
  have hrestored := hretains.operation (by decide) (by decide)
  revert hrestored
  decide

end Snapshots

end Api
