import Mathlib.Data.List.Nodup
import TeleBezel.Api.Account
import TeleBezel.Lib.Transition

/-!
# The order of a pass

`run` of `ReconciliationService` in `backend-api/app`, as the walk it takes through the accounts:
two phases, each from its saved cursor to the end of the table and from the start of the table to
the cursor, in batches of 25 rows that `batch` of `TelegramAccountRepository` reads. Between any two
steps the table may become any other, and so may what is due; what `reconcile` does to a row is
such a change. When the time budget is spent, and when an account is healthy, is left to the events.
A lock keeps passes from overlapping.
-/

open List

namespace Api.Passes

/-- A row of `telegram_accounts`, as far as a pass looks at it. -/
structure AccountRow where
  id : Uuid
  lifecycle : AccountLifecycle := .provisioning
  desiredRevision : ℕ := 1
  nextReconcileAt : Option ℕ := none
  reconcileBlockedRevision : Option ℕ := none
  reconcileFailures : ℕ := 0

structure Table where
  rows : List AccountRow := []
  sorted : rows.Pairwise (·.id < ·.id) := by decide

variable (table : Table)

def Table.update (table : Table) (change : AccountRow → AccountRow) : Table where
  rows := table.rows.map fun row => { change row with id := row.id }
  sorted := pairwise_map.mpr table.sorted

inductive Phase
  | first
  | second
deriving DecidableEq

def Phase.lifecycles : Phase → List AccountLifecycle
  | .first => [.logoutPending, .removing, .provisioning]
  | .second => [.active]

/-- `$due` and `$unblocked`, of a row with a lifecycle of the phase. -/
def AccountRow.Eligible (now : ℕ) (phase : Phase) (row : AccountRow) : Prop :=
  row.lifecycle ∈ phase.lifecycles ∧ (∀ next ∈ row.nextReconcileAt, next ≤ now) ∧
    row.reconcileBlockedRevision ≠ some row.desiredRevision

instance (now : ℕ) (phase : Phase) (row : AccountRow) : Decidable (row.Eligible now phase) :=
  inferInstanceAs (Decidable (_ ∧ (∀ next ∈ row.nextReconcileAt, next ≤ now) ∧ _))

/-- The ids between `$after` and `$through`. -/
def Within (after through : Option Uuid) (id : Uuid) : Prop :=
  (∀ a ∈ after, a < id) ∧ ∀ b ∈ through, id ≤ b

instance (after through : Option Uuid) (id : Uuid) : Decidable (Within after through id) :=
  inferInstanceAs (Decidable ((∀ a ∈ after, a < id) ∧ ∀ b ∈ through, id ≤ b))

def limit : ℕ := 25

/-- The rows that `batch` selects. -/
def Table.selected (now : ℕ) (phase : Phase) (after through : Option Uuid) :
    List AccountRow :=
  table.rows.filter fun row => row.Eligible now phase ∧ Within after through row.id

def Table.batch (now : ℕ) (phase : Phase) (after through : Option Uuid) :
    List AccountRow :=
  (table.selected now phase after through).take limit

inductive Stage
  /-- It is about to read a batch. -/
  | querying
  /-- It has read a batch, of which some rows are to come. -/
  | walking (count : ℕ) (rest : List AccountRow) (healthy : List Uuid)
  /-- It reconciles a row. -/
  | reconciling (count : ℕ) (rest : List AccountRow) (healthy : List Uuid) (account : AccountRow)

def Stage.rest : Stage → List AccountRow
  | .querying => []
  | .walking _ rest _ | .reconciling _ rest _ _ => rest

structure Walk where
  number : ℕ
  phase : Phase
  after : Option Uuid
  through : Option Uuid
  /-- The parts of the table that are to come, as `$after` and `$through`. -/
  later : List (Option Uuid × Option Uuid)
  stage : Stage := .querying

structure Visit where
  number : ℕ
  phase : Phase
  id : Uuid
  attempted : Bool
  /-- How many batches had been read. -/
  batch : ℕ
deriving DecidableEq

def Visit.key (visit : Visit) : ℕ × Phase × Uuid := (visit.number, visit.phase, visit.id)

/-- The table, the clock, the saved cursors and the pass under way, with what the passes have done. -/
structure State where
  table : Table
  now : ℕ := 0
  cursor : Phase → Option Uuid
  walk : Option Walk := none
  passes : ℕ := 0
  batches : ℕ := 0
  visits : List Visit := []
  /-- The phases that have not been stopped. -/
  completed : List (ℕ × Phase) := []

/-- How `reconcile` ends. -/
inductive Outcome
  | succeeded
  /-- An `ApiException`, with the number that is drawn. -/
  | failed (errorCode : String) (retryAfter : Option ℕ) (random : ℕ)

inductive Event
  /-- `run` takes the lock. -/
  | start
  /-- A batch is read, and the runtime is asked which of its accounts are healthy. -/
  | query (healthy : List Uuid)
  /-- The next row of a batch, or the end of the pass when its time is over. -/
  | visit (exhausted : Bool)
  | reconciled (outcome : Outcome)
  /-- The end of a batch. -/
  | next
  /-- An exception ends the pass. -/
  | abort
  /-- The table changes. -/
  | change (table : Table)
  | tick (seconds : ℕ)

def permanent : List String :=
  ["storage.invalid_key", "configuration.invalid", "configuration.missing",
    "configuration.environment_mismatch"]

def AccountRow.succeeded (row : AccountRow) : AccountRow :=
  { row with nextReconcileAt := none, reconcileFailures := 0, reconcileBlockedRevision := none }

def AccountRow.failed (row : AccountRow) (now : ℕ) (account : AccountRow) (errorCode : String)
    (retryAfter : Option ℕ) (random : ℕ) : AccountRow :=
  let failures := min 10 (account.reconcileFailures + 1)
  let base := 60 * 2 ^ min 4 (failures - 1)
  let delay := max (retryAfter.getD 0) (base + min random (min 30 (base / 4)))
  if errorCode ∈ permanent then
    { row with
      reconcileFailures := failures
      nextReconcileAt := none
      reconcileBlockedRevision := some account.desiredRevision }
  else
    { row with
      reconcileFailures := failures
      nextReconcileAt := some (now + delay)
      reconcileBlockedRevision := none }

def segments : Option Uuid → List (Option Uuid × Option Uuid)
  | none => [(none, none)]
  | some saved => [(some saved, none), (none, some saved)]

namespace State

def enter (s : State) (number : ℕ) (phase : Phase) : State :=
  match segments (s.cursor phase) with
  | (after, through) :: later =>
    { s with walk := some { number, phase, after, through, later } }
  | [] => s

def save (s : State) (phase : Phase) (id : Option Uuid) : State :=
  { s with cursor := Function.update s.cursor phase id }

def goOn (s : State) (walk : Walk) : State := { s with walk := some walk }

def stop (s : State) : State := { s with walk := none }

def query (s : State) (walk : Walk) (healthy : List Uuid) : State :=
  let batch := s.table.batch s.now walk.phase walk.after walk.through
  { s with
    batches := s.batches + 1
    walk := some { walk with
      stage := .walking batch.length batch (if walk.phase = .second then healthy else []) } }

def record (s : State) (walk : Walk) (id : Uuid) (attempted : Bool) : State :=
  { s with
    visits := s.visits ++
      [{ number := walk.number, phase := walk.phase, id, attempted, batch := s.batches }] }

def visit (s : State) (walk : Walk) (count : ℕ) (row : AccountRow) (rest : List AccountRow)
    (healthy : List Uuid) : State :=
  if row.id ∈ healthy then
    (s.record walk row.id false).goOn
      { walk with after := some row.id, stage := .walking count rest healthy }
  else
    ((s.record walk row.id true).save walk.phase (some row.id)).goOn
      { walk with after := some row.id, stage := .reconciling count rest healthy row }

/-- `reconcile` has ended. -/
def reconciled (s : State) (account : AccountRow) (outcome : Outcome) : State :=
  { s with
    table := s.table.update fun row =>
      if row.id = account.id ∧ row.desiredRevision = account.desiredRevision then
        match outcome with
        | .succeeded => row.succeeded
        | .failed errorCode retryAfter random =>
          row.failed s.now account errorCode retryAfter random
      else row }

def next (s : State) (walk : Walk) (count : ℕ) : State :=
  let s := if count = 0 then s else s.save walk.phase walk.after
  if count = limit then s.goOn { walk with stage := .querying }
  else
    match walk.later with
    | (after, through) :: later => s.goOn { walk with after, through, later, stage := .querying }
    | [] =>
      let s := { s with completed := s.completed ++ [(walk.number, walk.phase)] }
      match walk.phase with
      | .first => s.enter walk.number .second
      | .second => s.stop

end State

def advance (s : State) (walk : Walk) (event : Event) : State :=
  match walk.stage, event with
  | .querying, .query healthy => s.query walk healthy
  | .walking count (row :: rest) healthy, .visit exhausted =>
    if exhausted then s.stop else s.visit walk count row rest healthy
  | .reconciling count rest healthy account, .reconciled outcome =>
    (s.reconciled account outcome).goOn { walk with stage := .walking count rest healthy }
  | .walking count [] _, .next => s.next walk count
  | _, .abort => s.stop
  | _, _ => s

def step (s : State) (event : Event) : State :=
  match event, s.walk with
  | .change table, _ => { s with table }
  | .tick seconds, _ => { s with now := s.now + seconds }
  | .start, none => { s with passes := s.passes + 1 }.enter s.passes .first
  | event, some walk => advance s walk event
  | _, none => s

/-! ### What a pass has visited lies behind it -/

def Walk.Ahead (walk : Walk) (id : Uuid) : Prop :=
  Within walk.after walk.through id ∨ ∃ part ∈ walk.later, Within part.1 part.2 id

def Walk.Parted (walk : Walk) : Prop :=
  walk.later = [] ∨ ∃ saved a, walk.later = [(none, some saved)] ∧ walk.through = none ∧
    walk.after = some a ∧ saved ≤ a

structure Walk.Sound (visits : List Visit) (passes : ℕ) (walk : Walk) : Prop where
  number : walk.number < passes
  parted : walk.Parted
  sorted : walk.stage.rest.Pairwise (·.id < ·.id)
  within : ∀ row ∈ walk.stage.rest, Within walk.after walk.through row.id
  behind : ∀ visit ∈ visits, visit.number = walk.number → visit.phase = walk.phase →
    ¬ walk.Ahead visit.id
  /-- The second phase comes second. -/
  phase : ∀ visit ∈ visits, visit.number = walk.number → walk.phase = .first →
    visit.phase = .first

structure Sound (s : State) : Prop where
  walk : ∀ walk, s.walk = some walk → walk.Sound s.visits s.passes
  visits : ∀ visit ∈ s.visits, visit.number < s.passes
  nodup : (s.visits.map Visit.key).Nodup

variable {s : State} {walk : Walk} {after through : Option Uuid} {id : Uuid}

theorem Within.trans {row : Uuid} (hrow : Within after through row)
    (h : Within (some row) through id) : Within after through id :=
  ⟨fun a ha => Nat.lt_trans (hrow.1 a ha) (h.1 row rfl), h.2⟩

variable {row : AccountRow}

theorem mem_selected {table : Table} {now : ℕ} {phase : Phase} :
    row ∈ table.selected now phase after through ↔
      row ∈ table.rows ∧ row.Eligible now phase ∧ Within after through row.id := by
  rw [Table.selected, mem_filter, decide_eq_true_eq]

theorem pairwise_selected (now : ℕ) (phase : Phase) :
    (table.selected now phase after through).Pairwise (·.id < ·.id) :=
  table.sorted.sublist filter_sublist

theorem pairwise_batch (now : ℕ) (phase : Phase) :
    (table.batch now phase after through).Pairwise (·.id < ·.id) :=
  (pairwise_selected table now phase).sublist (take_sublist _ _)

theorem within_of_mem_batch {table : Table} {now : ℕ} {phase : Phase}
    (h : row ∈ table.batch now phase after through) : Within after through row.id :=
  (mem_selected.mp (mem_of_mem_take h)).2.2

theorem Walk.Parted.disjoint (h : walk.Parted) (hid : Within walk.after walk.through id) :
    ∀ part ∈ walk.later, ¬ Within part.1 part.2 id := by
  intro part hpart hwithin
  rcases h with hnil | ⟨saved, a, hlater, -, hafter, hle⟩
  · rw [hnil] at hpart
    cases hpart
  · rw [hlater, mem_singleton] at hpart
    subst hpart
    have hlt : a < id := hid.1 a hafter
    have hge : id ≤ saved := hwithin.2 saved rfl
    exact absurd hge (Nat.not_le.mpr (Nat.lt_of_le_of_lt hle hlt))

theorem Walk.Parted.moved (h : walk.Parted) {row : Uuid}
    (hrow : Within walk.after walk.through row) (stage : Stage) :
    ({ walk with after := some row, stage } : Walk).Parted := by
  rcases h with hnil | ⟨saved, a, hlater, hthrough, hafter, hle⟩
  · exact .inl hnil
  · have hlt : a < row := hrow.1 a hafter
    exact .inr ⟨saved, row, hlater, hthrough, rfl, Nat.le_of_lt (Nat.lt_of_le_of_lt hle hlt)⟩

section

variable (h : Sound s)
include h

theorem Sound.goOn (hwalk : walk.Sound s.visits s.passes) : Sound (s.goOn walk) where
  walk := by rintro _ ⟨⟩; exact hwalk
  visits := h.visits
  nodup := h.nodup

theorem Sound.stop : Sound s.stop where
  walk := nofun
  visits := h.visits
  nodup := h.nodup

theorem Sound.save (phase : Phase) (id : Option Uuid) : Sound (s.save phase id) where
  walk := h.walk
  visits := h.visits
  nodup := h.nodup

theorem Sound.enter {number : ℕ} {phase : Phase} (hnumber : number < s.passes)
    (hnew : ∀ visit ∈ s.visits, visit.number = number → visit.phase ≠ phase)
    (hphase : ∀ visit ∈ s.visits, visit.number = number → phase = .first → visit.phase = .first) :
    Sound (s.enter number phase) := by
  unfold State.enter
  split
  · rename_i after through later hsegments
    refine ⟨?_, h.visits, h.nodup⟩
    rintro _ ⟨⟩
    refine ⟨hnumber, ?_, .nil, nofun, ?_, hphase⟩
    · cases hsaved : s.cursor phase with
      | none =>
        rw [hsaved, segments, List.cons.injEq] at hsegments
        exact .inl hsegments.2.symm
      | some saved =>
        rw [hsaved, segments, List.cons.injEq, Prod.mk.injEq] at hsegments
        obtain ⟨⟨rfl, rfl⟩, rfl⟩ := hsegments
        exact .inr ⟨saved, saved, rfl, rfl, rfl, Nat.le_refl _⟩
    · intro visit hvisit heq heq'
      exact absurd heq' (hnew visit hvisit heq)
  · exact h

section

variable (hwalk : walk.Sound s.visits s.passes)
include hwalk

theorem Sound.query (healthy : List Uuid) :
    Sound (s.query walk healthy) := by
  refine ⟨?_, h.visits, h.nodup⟩
  rintro _ ⟨⟩
  exact ⟨hwalk.number, hwalk.parted, pairwise_batch _ _ _, fun row => within_of_mem_batch,
    hwalk.behind, hwalk.phase⟩

theorem Sound.visited
    {rest : List AccountRow} (hrest : walk.stage.rest = row :: rest) (attempted : Bool)
    {stage : Stage} (hstage : stage.rest = rest) :
    Sound ((s.record walk row.id attempted).goOn { walk with after := some row.id, stage }) := by
  have hrow : Within walk.after walk.through row.id :=
    hwalk.within row (hrest ▸ mem_cons_self)
  have hsorted := hwalk.sorted
  rw [hrest, pairwise_cons] at hsorted
  have hmem : ∀ visit ∈ (s.record walk row.id attempted).visits, visit ∈ s.visits ∨
      visit = { number := walk.number, phase := walk.phase, id := row.id, attempted,
                batch := s.batches } := by
    intro visit hvisit
    rwa [State.record, mem_append, mem_singleton] at hvisit
  refine ⟨?_, ?_, ?_⟩
  · rintro _ ⟨⟩
    refine ⟨hwalk.number, hwalk.parted.moved hrow stage, ?_, ?_, ?_, ?_⟩
    · rw [hstage]
      exact hsorted.2
    · intro other hother
      rw [hstage] at hother
      have hwithin := hwalk.within other (hrest ▸ mem_cons_of_mem _ hother)
      refine ⟨?_, hwithin.2⟩
      rintro _ ⟨⟩
      exact hsorted.1 other hother
    · intro visit hvisit hnumber hphase hahead
      rcases hmem visit hvisit with hvisit | rfl
      · refine hwalk.behind visit hvisit hnumber hphase ?_
        exact hahead.imp (fun hwithin => hrow.trans hwithin) id
      · rcases hahead with hwithin | ⟨part, hpart, hwithin⟩
        · exact absurd (hwithin.1 row.id rfl) (Nat.lt_irrefl _)
        · exact hwalk.parted.disjoint hrow part hpart hwithin
    · intro visit hvisit hnumber hphase
      rcases hmem visit hvisit with hvisit | rfl
      · exact hwalk.phase visit hvisit hnumber hphase
      · exact hphase
  · intro visit hvisit
    rcases hmem visit hvisit with hvisit | rfl
    · exact h.visits visit hvisit
    · exact hwalk.number
  · show ((s.record walk row.id attempted).visits.map Visit.key).Nodup
    rw [State.record, map_append, nodup_append]
    refine ⟨h.nodup, nodup_singleton _, ?_⟩
    intro key hkey key' hkey' heq
    rw [map_cons, map_nil, mem_singleton] at hkey'
    obtain ⟨visit, hvisit, rfl⟩ := mem_map.mp hkey
    rw [hkey', Visit.key, Visit.key, Prod.mk.injEq, Prod.mk.injEq] at heq
    refine hwalk.behind visit hvisit heq.1 heq.2.1 (.inl ?_)
    rw [heq.2.2]
    exact hrow

theorem Sound.visit {count : ℕ} {rest : List AccountRow} {healthy : List Uuid}
    (hstage : walk.stage = .walking count (row :: rest) healthy) :
    Sound (s.visit walk count row rest healthy) := by
  have hrest : walk.stage.rest = row :: rest := by rw [hstage]; rfl
  unfold State.visit
  split
  · exact h.visited hwalk hrest false rfl
  · have hvisited : Sound ((s.record walk row.id true).goOn
        { walk with after := some row.id, stage := .reconciling count rest healthy row }) :=
      h.visited hwalk hrest true rfl
    exact hvisited.save walk.phase (some row.id)

theorem Sound.next (count : ℕ) :
    Sound (s.next walk count) := by
  have hsaved : Sound (if count = 0 then s else s.save walk.phase walk.after) := by
    split
    · exact h
    · exact h.save _ _
  have hvisits : (if count = 0 then s else s.save walk.phase walk.after).visits = s.visits := by
    split <;> rfl
  have hpasses : (if count = 0 then s else s.save walk.phase walk.after).passes = s.passes := by
    split <;> rfl
  unfold State.next
  generalize (if count = 0 then s else s.save walk.phase walk.after) = t at *
  rw [← hvisits, ← hpasses] at hwalk
  split
  · exact hsaved.goOn ⟨hwalk.number, hwalk.parted, .nil, nofun, hwalk.behind, hwalk.phase⟩
  · split
    · rename_i after through later hlater
      refine hsaved.goOn ⟨hwalk.number, ?_, .nil, nofun, ?_, hwalk.phase⟩
      · rcases hwalk.parted with hnil | ⟨saved, a, hparts, -⟩
        · rw [hnil] at hlater
          cases hlater
        · rw [hparts, List.cons.injEq] at hlater
          exact .inl hlater.2.symm
      · intro visit hvisit hnumber hphase hahead
        refine hwalk.behind visit hvisit hnumber hphase (.inr ?_)
        rw [hlater]
        rcases hahead with hwithin | ⟨part, hpart, hwithin⟩
        · exact ⟨(after, through), mem_cons_self, hwithin⟩
        · exact ⟨part, mem_cons_of_mem _ hpart, hwithin⟩
    · have hcompleted : Sound { t with completed := t.completed ++ [(walk.number, walk.phase)] } :=
        ⟨hsaved.walk, hsaved.visits, hsaved.nodup⟩
      split
      · rename_i hphase
        refine hcompleted.enter hwalk.number ?_ nofun
        intro visit hvisit hnumber hsecond
        rw [hwalk.phase visit hvisit hnumber hphase] at hsecond
        cases hsecond
      · exact hcompleted.stop

end

theorem sound_step (event : Event) : Sound (step s event) := by
  unfold step
  split
  · exact ⟨h.walk, h.visits, h.nodup⟩
  · exact ⟨h.walk, h.visits, h.nodup⟩
  · have hgrown : Sound { s with passes := s.passes + 1 } :=
      ⟨fun walk hwalk => by simp_all, fun visit hvisit => Nat.lt_succ_of_lt (h.visits visit hvisit),
        h.nodup⟩
    refine hgrown.enter (Nat.lt_succ_self _) ?_ ?_
    · intro visit hvisit heq
      exact absurd heq (Nat.ne_of_lt (h.visits visit hvisit))
    · intro visit hvisit heq
      exact absurd heq (Nat.ne_of_lt (h.visits visit hvisit))
  · rename_i walk _ _ hsome
    have hwalk := h.walk walk hsome
    unfold advance
    split
    · exact h.query hwalk _
    · split
      · exact h.stop
      · rename_i hstage _ _ _
        exact h.visit hwalk hstage
    · rename_i count rest healthy account outcome hstage _ _
      have hreconciled : Sound (s.reconciled account outcome) := ⟨h.walk, h.visits, h.nodup⟩
      refine hreconciled.goOn ⟨hwalk.number, hwalk.parted, ?_, ?_, hwalk.behind, hwalk.phase⟩
      · have hsorted := hwalk.sorted
        rwa [hstage] at hsorted
      · have hwithin := hwalk.within
        rwa [hstage] at hwithin
    · exact h.next hwalk _
    · exact h.stop
    · exact h
  · exact h

end

end Api.Passes
