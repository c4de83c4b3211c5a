import Mathlib.Data.List.Sort
import TeleBezel.Lib.Transition

/-!
# Quick replies

`QuickReplyService` and `QuickReplyRepository` of `backend-api/app`, for one instance. Whoever changes
the list holds the row of the instance and counts its revision up in the same transaction, so that a
change is one step here. `snapshot` reads the list and then the revision, in two statements that each
see what is committed when they begin: the list of one revision may go out with the number of the next.
-/

namespace Api.QuickReplies

open Transition

/-- A row of `quick_replies`. -/
structure QuickReply where
  id : String
  text : String
  position : ℕ
deriving DecidableEq

/-- What `snapshot` returns. -/
structure Snapshot where
  items : List QuickReply
  revision : ℕ
deriving DecidableEq

/-- The tables, the lists that snapshots under way have read, and the snapshots that were given
out. -/
structure State where
  rows : List QuickReply := []
  revision : ℕ := 1
  readers : ℕ → Option (List QuickReply) := fun _ => none
  snapshots : List Snapshot := []

/-- `QuickReplyService::LIMIT`, and the greatest value of a `smallint`. -/
def limit : ℕ := 50

@[inherit_doc limit] def smallintMax : ℕ := 32767

namespace State

def all (s : State) : List QuickReply := s.rows.insertionSort fun a b => a.position ≤ b.position

def nextPosition (s : State) (first : ℕ) : ℕ :=
  match (s.rows.map (·.position)).max? with
  | none => first
  | some greatest => greatest + 1

/-- The rows are replaced, and `bumpRevision` is run. -/
def changed (s : State) (rows : List QuickReply) : State :=
  { s with rows, revision := s.revision + 1 }

/-- `QuickReplyService::create`, or none where it throws. -/
def create (s : State) (id text : String) : Option State :=
  let position := s.nextPosition 0
  if limit ≤ s.all.length ∨ smallintMax < position ∨ s.rows.any (·.id = id) then none
  else some (s.changed (s.rows ++ [⟨id, text, position⟩]))

def placed (base : ℕ) (ids : List String) (rows : List QuickReply) : List QuickReply :=
  ids.zipIdx.foldl (fun rows (id, index) => rows.map fun row =>
    if row.id = id then { row with position := base + index } else row) rows

/-- `QuickReplyService::reorder`, or none where it throws. The ids must be those that there are, in
another order; the positions are first moved out of the way. -/
def reorder (s : State) (ids : List String) : Option State :=
  let offset := s.nextPosition 1
  if ¬ (s.all.map (·.id)).isPerm ids ∨ smallintMax + 1 < offset + ids.length then none
  else some (s.changed (placed 0 ids (placed offset ids s.rows)))

/-- `QuickReplyService::update`, or none where it throws. -/
def update (s : State) (id text : String) : Option State :=
  if s.rows.any (·.id = id) then
    some (s.changed (s.rows.map fun row => if row.id = id then { row with text } else row))
  else none

def delete (s : State) (id : String) : State :=
  if s.rows.any (·.id = id) then s.changed (s.rows.filter (·.id ≠ id)) else s

/-- The first statement of `snapshot`. -/
def readItems (s : State) (reader : ℕ) : State :=
  { s with readers := Function.update s.readers reader (some s.all) }

/-- The second statement of `snapshot`, which then returns. -/
def readRevision (s : State) (reader : ℕ) : State :=
  match s.readers reader with
  | none => s
  | some items =>
    { s with
      readers := Function.update s.readers reader none
      snapshots := s.snapshots ++ [⟨items, s.revision⟩] }

end State

inductive Event
  | create (id text : String)
  | reorder (ids : List String)
  | update (id text : String)
  | delete (id : String)
  | readItems (reader : ℕ)
  | readRevision (reader : ℕ)

def step (s : State) : Event → State
  | .create id text => (s.create id text).getD s
  | .reorder ids => (s.reorder ids).getD s
  | .update id text => (s.update id text).getD s
  | .delete id => s.delete id
  | .readItems reader => s.readItems reader
  | .readRevision reader => s.readRevision reader

/-- A revision stands for one list. -/
def Identifies (s : State) : Prop :=
  ∀ a ∈ s.snapshots, ∀ b ∈ s.snapshots, a.revision = b.revision → a.items = b.items

def State.snapshot (s : State) (reader : ℕ) : State := (s.readItems reader).readRevision reader

/-- Nothing is written between the two reads of a snapshot. -/
def Undisturbed (s : State) : Event → Prop
  | .readRevision reader => ∀ items ∈ s.readers reader, items = s.all
  | _ => True

instance (s : State) : (event : Event) → Decidable (Undisturbed s event)
  | .readRevision reader => inferInstanceAs (Decidable (∀ items ∈ s.readers reader, items = s.all))
  | .create _ _ | .reorder _ | .update _ _ | .delete _ | .readItems _ => isTrue trivial

/-- What a run keeps: a snapshot is not of a later revision, and one of the present revision has the
present list. -/
structure Sound (s : State) : Prop where
  identifies : Identifies s
  earlier : ∀ snapshot ∈ s.snapshots, snapshot.revision ≤ s.revision
  present : ∀ snapshot ∈ s.snapshots, snapshot.revision = s.revision → snapshot.items = s.all

variable {s s' : State}

theorem Sound.changed (h : Sound s) (rows : List QuickReply) : Sound (s.changed rows) := by
  refine ⟨h.identifies, fun snapshot hmem => Nat.le_succ_of_le (h.earlier snapshot hmem), ?_⟩
  intro snapshot hmem hsame
  have hle := h.earlier snapshot hmem
  have hnew : snapshot.revision = s.revision + 1 := hsame
  omega

theorem Sound.readItems (h : Sound s) (reader : ℕ) : Sound (s.readItems reader) :=
  ⟨h.identifies, h.earlier, h.present⟩

theorem Sound.readRevision (h : Sound s) {reader : ℕ}
    (hitems : ∀ items ∈ s.readers reader, items = s.all) : Sound (s.readRevision reader) := by
  unfold State.readRevision
  cases hreader : s.readers reader with
  | none => exact h
  | some items =>
    obtain rfl := hitems items hreader
    have hcases : ∀ snapshot ∈ s.snapshots ++ [⟨s.all, s.revision⟩],
        snapshot ∈ s.snapshots ∨ snapshot = ⟨s.all, s.revision⟩ := by
      intro snapshot hmem
      exact (List.mem_append.mp hmem).imp id List.mem_singleton.mp
    refine ⟨fun a ha b hb hsame => ?_, fun snapshot hmem => ?_, fun snapshot hmem hsame => ?_⟩
    · rcases hcases a ha with ha | rfl
      · rcases hcases b hb with hb | rfl
        · exact h.identifies a ha b hb hsame
        · exact h.present a ha hsame
      · rcases hcases b hb with hb | rfl
        · exact (h.present b hb hsame.symm).symm
        · rfl
    · rcases hcases snapshot hmem with hmem | rfl
      · exact h.earlier snapshot hmem
      · exact Nat.le_refl _
    · rcases hcases snapshot hmem with hmem | rfl
      · exact h.present snapshot hmem hsame
      · rfl

theorem sound_getD {result : Option State} (h : Sound s)
    (hresult : ∀ s', result = some s' → Sound s') : Sound (result.getD s) := by
  cases result with
  | none => exact h
  | some s' => exact hresult s' rfl

theorem sound_step (h : Sound s) {event : Event} (hundisturbed : Undisturbed s event) :
    Sound (step s event) := by
  cases event with
  | create id text =>
    refine sound_getD h fun s' hs => ?_
    unfold State.create at hs
    dsimp only at hs
    split_ifs at hs
    cases hs
    exact h.changed _
  | reorder ids =>
    refine sound_getD h fun s' hs => ?_
    unfold State.reorder at hs
    dsimp only at hs
    split_ifs at hs
    cases hs
    exact h.changed _
  | update id text =>
    refine sound_getD h fun s' hs => ?_
    unfold State.update at hs
    split_ifs at hs
    cases hs
    exact h.changed _
  | delete id =>
    simp only [step, State.delete]
    split_ifs
    · exact h.changed _
    · exact h
  | readItems reader => exact h.readItems reader
  | readRevision reader => exact h.readRevision hundisturbed

theorem Sound.snapshot (h : Sound s) (reader : ℕ) : Sound (s.snapshot reader) := by
  refine (h.readItems reader).readRevision fun items hitems => ?_
  have hread : some s.all = some items := by
    rw [← show (s.readItems reader).readers reader = some s.all from Function.update_self _ _ _]
    exact hitems
  exact (Option.some.inj hread).symm

theorem disturbed_step {event : Event} (hdisturbed : ¬ Undisturbed s event) (reader : ℕ) :
    ¬ Identifies ((step s event).snapshot reader) := by
  cases event with
  | readRevision other =>
    simp only [Undisturbed, not_forall] at hdisturbed
    obtain ⟨items, hreader, hstale⟩ := hdisturbed
    have hread : s.readers other = some items := hreader
    intro h
    refine hstale (h ⟨items, s.revision⟩ ?_ ⟨s.all, s.revision⟩ ?_ rfl)
    · simp [step, State.readRevision, hread, State.snapshot, State.readItems]
    · simp [step, State.readRevision, hread, State.snapshot, State.readItems, State.all]
  | create _ _ | reorder _ | update _ _ | delete _ | readItems _ => exact absurd trivial hdisturbed

theorem sound_start : Sound {} := ⟨nofun, nofun, nofun⟩

/-- **Revisions identify their contents** in every state of a run, and in whatever one more snapshot
leads to, exactly when no snapshot of the run is disturbed. -/
theorem identifies_of_run (events : List Event) :
    (∀ before, before <+: events → Identifies (before.foldl step {}) ∧
        ∀ reader, Identifies ((before.foldl step {}).snapshot reader)) ↔
      check step Undisturbed {} events = true := by
  refine @always_iff_check State Event step Undisturbed _ Sound
    (fun s => Identifies s ∧ ∀ reader, Identifies (s.snapshot reader)) ?_
    (fun s event h => sound_step h) {} sound_start ?_ events
  · intro s event h
    by_cases hundisturbed : Undisturbed s event
    · have hsound := sound_step h hundisturbed
      exact iff_of_true ⟨hsound.identifies, fun reader => (hsound.snapshot reader).identifies⟩
        hundisturbed
    · exact iff_of_false (fun hboth => disturbed_step hundisturbed 0 (hboth.2 0)) hundisturbed
  · exact ⟨sound_start.identifies, fun reader => (sound_start.snapshot reader).identifies⟩

/-- A reply is created between the two statements of a snapshot, and another snapshot follows. -/
def overtaken : List Event :=
  [.readItems 0, .create "a" "Yes", .readRevision 0, .readItems 1, .readRevision 1]

/-- Two snapshots with the same revision have different items. -/
theorem snapshots_differ : ¬ Identifies (overtaken.foldl step {}) := by
  intro h
  have hsame := h ⟨[], 2⟩ (by decide) ⟨[⟨"a", "Yes", 0⟩], 2⟩ (by decide) rfl
  exact absurd hsame (by decide)

end Api.QuickReplies
