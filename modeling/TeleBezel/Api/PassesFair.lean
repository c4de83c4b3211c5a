import Mathlib.Data.List.Infix
import TeleBezel.Api.Passes

/-!
# Passes are fair

A phase that is not stopped comes to every account that is eligible while it goes on, exactly once.
Between two attempts of one account the passes come to every other account that is eligible from when
the batch of the first attempt is read. An account that becomes eligible between that reading and the
attempt is not in the batch: the pass goes by, and the next one may be at the first account before it.
-/

open List

namespace Api.Passes

open Transition Function

/-- An account that `batch` would select in a phase. -/
def State.Eligible (s : State) (phase : Phase) (id : Uuid) : Prop :=
  ∃ row ∈ s.table.rows, row.id = id ∧ row.Eligible s.now phase

instance (s : State) (phase : Phase) (id : Uuid) : Decidable (s.Eligible phase id) :=
  inferInstanceAs (Decidable (∃ row ∈ s.table.rows, row.id = id ∧ row.Eligible s.now phase))

def State.InPhase (s : State) (number : ℕ) (phase : Phase) : Prop :=
  ∃ walk, s.walk = some walk ∧ walk.number = number ∧ walk.phase = phase

def Visit.Attempts (visit : Visit) (phase : Phase) (id : Uuid) : Prop :=
  visit.attempted = true ∧ visit.phase = phase ∧ visit.id = id

/-- Between two attempts of one account in a phase, the passes come to every other account that stays
eligible: from where `since` begins to hold, given the first attempt and what was visited before it,
to the second attempt. -/
def Attentive (since : Visit → List Visit → State → Prop) (s : State) (events : List Event) : Prop :=
  ∀ phase x y front first middle second rest, y ≠ x →
    (events.foldl step s).visits = front ++ first :: (middle ++ second :: rest) →
    first.Attempts phase x → second.Attempts phase x →
    (∀ es, es <+: events → since first front (es.foldl step s) →
      (es.foldl step s).visits.length ≤ (front ++ first :: middle).length →
        (es.foldl step s).Eligible phase y) →
    ∃ visit ∈ middle, visit.phase = phase ∧ visit.id = y

/-- Everybody has a turn. -/
structure Fair (s : State) (events : List Event) : Prop where
  /-- Within one pass and phase no account is visited twice. -/
  once : ((events.foldl step s).visits.map Visit.key).Nodup
  /-- A phase that is not stopped visits every account that is eligible throughout. -/
  every : ∀ number phase id, (number, phase) ∈ (events.foldl step s).completed →
    (∀ es, es <+: events → (es.foldl step s).InPhase number phase →
      (es.foldl step s).Eligible phase id) →
    ∃ visit ∈ (events.foldl step s).visits, visit.key = (number, phase, id)
  /-- Between two attempts the others are visited that are eligible since the batch was read. -/
  between : Attentive (fun first _ s => first.batch ≤ s.batches) s events

/-! ### What a batch has -/

def Stage.read : Stage → Option (ℕ × List AccountRow)
  | .querying => none
  | .walking count rest _ | .reconciling count rest _ _ => some (count, rest)

/-- An account that lies before a pass in the part it is in is in its batch, unless the batch is full
and ends before it. -/
def Walk.Holds (walk : Walk) (id : Uuid) : Prop :=
  ∀ count rest, walk.stage.read = some (count, rest) → Within walk.after walk.through id →
    id ∈ rest.map AccountRow.id ∨ count = limit ∧ ∀ row ∈ rest, row.id < id

def State.Holds (s : State) (phase : Phase) (id : Uuid) : Prop :=
  ∀ walk, s.walk = some walk → walk.phase = phase → walk.Holds id

variable {s : State} {walk : Walk} {phase : Phase} {id : Uuid}

theorem holds_querying (h : walk.stage = .querying) : walk.Holds id := by
  intro count rest hread
  rw [h] at hread
  cases hread

theorem holds_query (h : s.Eligible walk.phase id) {batch : List AccountRow}
    (hbatch : s.table.batch s.now walk.phase walk.after walk.through = batch) {stage : Stage}
    (hstage : stage.read = some (batch.length, batch)) : ({ walk with stage } : Walk).Holds id := by
  intro count rest hread hwithin
  rw [hstage, Option.some.injEq, Prod.mk.injEq] at hread
  obtain ⟨rfl, rfl⟩ := hread
  subst hbatch
  obtain ⟨row, hrow, rfl, heligible⟩ := h
  have hselected : row ∈ s.table.selected s.now walk.phase walk.after walk.through :=
    mem_selected.mpr ⟨hrow, heligible, hwithin⟩
  have hsorted : (s.table.selected s.now walk.phase walk.after walk.through).Pairwise
      (·.id < ·.id) := pairwise_selected s.table s.now walk.phase
  unfold Table.batch
  generalize s.table.selected s.now walk.phase walk.after walk.through = selected at *
  rw [← take_append_drop limit selected, mem_append] at hselected
  rcases hselected with htake | hdrop
  · exact .inl (mem_map_of_mem htake)
  · refine .inr ⟨?_, fun other hother => ?_⟩
    · have hlong : 0 < (selected.drop limit).length := length_pos_of_mem hdrop
      rw [length_drop] at hlong
      rw [length_take]
      omega
    · rw [← take_append_drop limit selected, pairwise_append] at hsorted
      exact hsorted.2.2 other hother row hdrop

variable {rest : List AccountRow} {count : ℕ} {row : AccountRow}

theorem Walk.Holds.le (h : walk.Holds id) (hread : walk.stage.read = some (count, row :: rest))
    (hsorted : (row :: rest).Pairwise (·.id < ·.id)) (hwithin : Within walk.after walk.through id) :
    row.id ≤ id := by
  rcases h count _ hread hwithin with hmem | ⟨-, hlt⟩
  · rw [map_cons, mem_cons] at hmem
    rcases hmem with rfl | hmem
    · exact Nat.le_refl _
    · obtain ⟨other, hother, rfl⟩ := mem_map.mp hmem
      exact Nat.le_of_lt ((pairwise_cons.mp hsorted).1 other hother)
  · exact Nat.le_of_lt (hlt row mem_cons_self)

theorem Walk.Holds.over (h : walk.Holds id)
    (hread : walk.stage.read = some (count, [])) (hcount : count ≠ limit) :
    ¬ Within walk.after walk.through id := by
  intro hwithin
  rcases h count [] hread hwithin with hmem | ⟨hfull, -⟩
  · cases hmem
  · exact hcount hfull

theorem Walk.Holds.visited (h : walk.Holds id) (hread : walk.stage.read = some (count, row :: rest))
    (hrow : Within walk.after walk.through row.id) {stage : Stage}
    (hstage : stage.read = some (count, rest)) :
    ({ walk with after := some row.id, stage } : Walk).Holds id := by
  rintro count' rest' hread' hwithin
  rw [hstage, Option.some.injEq, Prod.mk.injEq] at hread'
  obtain ⟨rfl, rfl⟩ := hread'
  have hne : id ≠ row.id := (Nat.ne_of_lt (hwithin.1 row.id rfl)).symm
  rcases h count _ hread (hrow.trans hwithin) with hmem | ⟨hfull, hlt⟩
  · rw [map_cons, mem_cons] at hmem
    exact .inl (hmem.resolve_left hne)
  · exact .inr ⟨hfull, fun other hother => hlt other (mem_cons_of_mem _ hother)⟩

/-! ### What a step does to a pass -/

inductive Move (s : State) : State → Prop
  /-- The pass stays where it is, or ends. -/
  | stay (s' : State) (hwalk : s'.walk = s.walk ∨ s'.walk = none) (hvisits : s'.visits = s.visits)
      (hcursor : s'.cursor = s.cursor) (hbatches : s'.batches = s.batches)
      (hcompleted : s'.completed = s.completed) : Move s s'
  | enter : s.walk = none → Move s ({ s with passes := s.passes + 1 }.enter s.passes .first)
  | query (walk : Walk) (healthy : List Uuid) : s.walk = some walk → Move s (s.query walk healthy)
  | visit (walk : Walk) (count : ℕ) (row : AccountRow) (rest : List AccountRow)
      (healthy : List Uuid) : s.walk = some walk →
      walk.stage = .walking count (row :: rest) healthy →
        Move s (s.visit walk count row rest healthy)
  | reconciled (walk : Walk) (table : Table) (stage : Stage) : s.walk = some walk →
      stage.read = walk.stage.read → Move s ({ s with table }.goOn { walk with stage })
  | next (walk : Walk) (count : ℕ) (healthy : List Uuid) : s.walk = some walk →
      walk.stage = .walking count [] healthy → Move s (s.next walk count)

theorem move_step (s : State) (event : Event) : Move s (step s event) := by
  unfold step
  split
  · exact .stay _ (.inl rfl) rfl rfl rfl rfl
  · exact .stay _ (.inl rfl) rfl rfl rfl rfl
  · rename_i hwalk
    exact .enter hwalk
  · rename_i walk _ _ hwalk
    unfold advance
    split
    · exact .query walk _ hwalk
    · split
      · exact .stay _ (.inr rfl) rfl rfl rfl rfl
      · rename_i hstage _ _ _
        exact .visit walk _ _ _ _ hwalk hstage
    · rename_i hstage _ _
      exact .reconciled walk _ _ hwalk (by rw [hstage]; rfl)
    · rename_i hstage _ _
      exact .next walk _ _ hwalk hstage
    · exact .stay _ (.inr rfl) rfl rfl rfl rfl
    · exact .stay _ (.inl rfl) rfl rfl rfl rfl
  · exact .stay _ (.inl rfl) rfl rfl rfl rfl

theorem enter_eq (s : State) (number : ℕ) (phase : Phase) :
    ∃ after through later, segments (s.cursor phase) = (after, through) :: later ∧
      s.enter number phase =
        { s with walk := some { number, phase, after, through, later } } := by
  unfold State.enter
  cases s.cursor phase with
  | none => exact ⟨none, none, [], rfl, rfl⟩
  | some saved => exact ⟨some saved, none, [(none, some saved)], rfl, rfl⟩

variable {later : List (Option Uuid × Option Uuid)} {after : Option Uuid}

theorem ahead_segments {saved through : Option Uuid}
    (h : segments saved = (after, through) :: later) (id : Uuid) :
    Within after through id ∨ ∃ part ∈ later, Within part.1 part.2 id := by
  cases saved with
  | none =>
    rw [segments, List.cons.injEq, Prod.mk.injEq] at h
    obtain ⟨⟨rfl, rfl⟩, -⟩ := h
    exact .inl ⟨by rintro _ ⟨⟩, by rintro _ ⟨⟩⟩
  | some saved =>
    rw [segments, List.cons.injEq, Prod.mk.injEq] at h
    obtain ⟨⟨rfl, rfl⟩, rfl⟩ := h
    rcases Nat.lt_or_ge saved id with hlt | hge
    · exact .inl ⟨by rintro _ ⟨⟩; exact hlt, by rintro _ ⟨⟩⟩
    · exact .inr ⟨_, mem_cons_self, by rintro _ ⟨⟩, by rintro _ ⟨⟩; exact hge⟩

def State.afterBatch (s : State) (walk : Walk) (count : ℕ) : State :=
  if count = 0 then s else s.save walk.phase walk.after

@[simp] theorem afterBatch_visits (count : ℕ) : (s.afterBatch walk count).visits = s.visits := by
  unfold State.afterBatch
  split <;> rfl

@[simp] theorem afterBatch_batches (count : ℕ) : (s.afterBatch walk count).batches = s.batches := by
  unfold State.afterBatch
  split <;> rfl

@[simp] theorem afterBatch_completed (count : ℕ) :
    (s.afterBatch walk count).completed = s.completed := by
  unfold State.afterBatch
  split <;> rfl

inductive Ended (s : State) (walk : Walk) (count : ℕ) : State → Prop
  | again : count = limit →
      Ended s walk count ((s.afterBatch walk count).goOn { walk with stage := .querying })
  | part (after through : Option Uuid) (later : List (Option Uuid × Option Uuid)) :
      count ≠ limit → walk.later = (after, through) :: later →
        Ended s walk count
          ((s.afterBatch walk count).goOn { walk with after, through, later, stage := .querying })
  | phase (s' : State) : count ≠ limit → walk.later = [] →
      s' = { s.afterBatch walk count with
        completed := (s.afterBatch walk count).completed ++ [(walk.number, walk.phase)] } →
        Ended s walk count
          (match walk.phase with
            | .first => s'.enter walk.number .second
            | .second => s'.stop)

theorem ended_next (s : State) (walk : Walk) (count : ℕ) : Ended s walk count (s.next walk count) := by
  unfold State.next
  dsimp only
  split
  · rename_i hcount
    exact .again hcount
  · rename_i hcount
    split
    · rename_i hlater
      exact .part _ _ _ hcount hlater
    · rename_i hlater
      exact .phase _ hcount hlater rfl

/-! ### A phase that is not stopped comes to every account -/

structure Complete (number : ℕ) (phase : Phase) (id : Uuid) (s : State) : Prop where
  sound : Sound s
  walk : ∀ walk, s.walk = some walk → walk.number = number → walk.phase = phase →
    walk.Holds id ∧ (walk.Ahead id ∨ ∃ visit ∈ s.visits, visit.key = (number, phase, id))
  completed : (number, phase) ∈ s.completed →
    ∃ visit ∈ s.visits, visit.key = (number, phase, id)

variable {s' : State}

theorem complete_move {number : ℕ} (h : Complete number phase id s)
    (heligible : s.InPhase number phase → s.Eligible phase id) (hmove : Move s s')
    (hsound : Sound s') : Complete number phase id s' := by
  cases hmove with
  | stay s' hwalk hvisits hcursor hbatches hcompleted =>
    refine ⟨hsound, ?_, ?_⟩
    · intro walk hsome
      rcases hwalk with hwalk | hwalk
      · rw [hvisits]
        exact h.walk walk (by rw [← hwalk, hsome])
      · rw [hwalk] at hsome
        cases hsome
    · rw [hcompleted, hvisits]
      exact h.completed
  | enter hnone =>
    obtain ⟨after, through, later, hsegments, heq⟩ :=
      enter_eq { s with passes := s.passes + 1 } s.passes .first
    rw [heq]
    refine ⟨heq ▸ hsound, ?_, h.completed⟩
    rintro _ ⟨⟩ - -
    exact ⟨holds_querying rfl, .inl (ahead_segments hsegments id)⟩
  | query walk healthy hwalk =>
    refine ⟨hsound, ?_, h.completed⟩
    rintro _ ⟨⟩ rfl rfl
    refine ⟨holds_query (heligible ⟨walk, hwalk, rfl, rfl⟩) rfl rfl, ?_⟩
    exact (h.walk walk hwalk rfl rfl).2
  | visit walk count row rest healthy hwalk hstage =>
    have hwalksound := h.sound.walk walk hwalk
    have hrow : Within walk.after walk.through row.id :=
      hwalksound.within row (by rw [hstage]; exact mem_cons_self)
    have hsorted : (row :: rest).Pairwise (·.id < ·.id) := by
      have hrest := hwalksound.sorted
      rwa [hstage] at hrest
    have hread : walk.stage.read = some (count, row :: rest) := by rw [hstage]; rfl
    -- however the row is visited, the pass stands at it then
    have hvisited : ∀ (attempted : Bool) (stage : Stage), stage.read = some (count, rest) →
        walk.number = number → walk.phase = phase →
        ({ walk with after := some row.id, stage } : Walk).Holds id ∧
          (({ walk with after := some row.id, stage } : Walk).Ahead id ∨
            ∃ visit ∈ (s.record walk row.id attempted).visits, visit.key = (number, phase, id)) := by
      intro attempted stage hstage' hnumber hphase
      obtain ⟨hholds, hahead⟩ := h.walk walk hwalk hnumber hphase
      refine ⟨hholds.visited hread hrow hstage', ?_⟩
      rcases hahead with hahead | ⟨visit, hvisit, hkey⟩
      · rcases hahead with hwithin | hlater
        · rcases Nat.lt_or_eq_of_le (hholds.le hread hsorted hwithin) with hlt | heq
          · exact .inl (.inl ⟨by rintro _ ⟨⟩; exact hlt, hwithin.2⟩)
          · refine .inr ⟨_, mem_append_right _ (mem_singleton_self _), ?_⟩
            rw [Visit.key, hnumber, hphase, heq]
        · exact .inl (.inr hlater)
      · exact .inr ⟨visit, mem_append_left _ hvisit, hkey⟩
    have hcompleted : (number, phase) ∈ s.completed → ∀ attempted,
        ∃ visit ∈ (s.record walk row.id attempted).visits, visit.key = (number, phase, id) := by
      intro hmem attempted
      obtain ⟨visit, hvisit, hkey⟩ := h.completed hmem
      exact ⟨visit, mem_append_left _ hvisit, hkey⟩
    unfold State.visit at hsound ⊢
    split at hsound
    · rename_i hhealthy
      rw [if_pos hhealthy]
      refine ⟨hsound, ?_, fun hmem => hcompleted hmem false⟩
      rintro _ ⟨⟩ hnumber hphase
      exact hvisited false _ rfl hnumber hphase
    · rename_i hhealthy
      rw [if_neg hhealthy]
      refine ⟨hsound, ?_, fun hmem => hcompleted hmem true⟩
      rintro _ ⟨⟩ hnumber hphase
      exact hvisited true _ rfl hnumber hphase
  | reconciled walk table stage hwalk hread =>
    refine ⟨hsound, ?_, h.completed⟩
    rintro _ ⟨⟩ hnumber hphase
    obtain ⟨hholds, hahead⟩ := h.walk walk hwalk hnumber hphase
    refine ⟨?_, hahead⟩
    intro count rest hread'
    exact hholds count rest (by rw [← hread]; exact hread')
  | next walk count healthy hwalk hstage =>
    have hread : walk.stage.read = some (count, []) := by rw [hstage]; rfl
    have hbefore : (number, phase) ∈ (s.afterBatch walk count).completed →
        ∃ visit ∈ (s.afterBatch walk count).visits, visit.key = (number, phase, id) := by
      rw [afterBatch_completed, afterBatch_visits]
      exact h.completed
    have hvisits : (s.afterBatch walk count).visits = s.visits := afterBatch_visits count
    have hended := ended_next s walk count
    generalize s.next walk count = t at *
    cases hended with
    | again hcount =>
      refine ⟨hsound, ?_, hbefore⟩
      rintro _ ⟨⟩ hnumber hphase
      obtain ⟨-, hahead⟩ := h.walk walk hwalk hnumber hphase
      refine ⟨holds_querying rfl, ?_⟩
      rw [← hvisits] at hahead
      exact hahead
    | part after through later hcount hlater =>
      refine ⟨hsound, ?_, hbefore⟩
      rintro _ ⟨⟩ hnumber hphase
      obtain ⟨hholds, hahead⟩ := h.walk walk hwalk hnumber hphase
      refine ⟨holds_querying rfl, ?_⟩
      rw [← hvisits] at hahead
      refine hahead.imp_left ?_
      rintro (hwithin | ⟨part, hpart, hwithin⟩)
      · exact absurd hwithin (hholds.over hread hcount)
      · rw [hlater, mem_cons] at hpart
        rcases hpart with rfl | hpart
        · exact .inl hwithin
        · exact .inr ⟨part, hpart, hwithin⟩
    | phase s' hcount hlater hs' =>
      have hdone : (number, phase) ∈ s'.completed →
          ∃ visit ∈ s'.visits, visit.key = (number, phase, id) := by
        rw [hs']
        intro hmem
        rcases mem_append.mp hmem with hmem | hmem
        · exact hbefore hmem
        · rw [mem_singleton, Prod.mk.injEq] at hmem
          obtain ⟨hholds, hahead⟩ := h.walk walk hwalk hmem.1.symm hmem.2.symm
          rw [← hvisits] at hahead
          refine hahead.resolve_left ?_
          rintro (hwithin | ⟨part, hpart, -⟩)
          · exact hholds.over hread hcount hwithin
          · rw [hlater] at hpart
            cases hpart
      split at hsound
      · obtain ⟨after, through, later, hsegments, heq⟩ := enter_eq s' walk.number .second
        rw [heq] at hsound ⊢
        refine ⟨hsound, ?_, hdone⟩
        rintro _ ⟨⟩ - -
        exact ⟨holds_querying rfl, .inl (ahead_segments hsegments id)⟩
      · refine ⟨hsound, ?_, hdone⟩
        rintro _ ⟨⟩

/-! ### Between two attempts of one account -/

/-- From a place on, round the table, `y` comes before `x`. -/
def Before : Option Uuid → Uuid → Uuid → Prop
  | none, y, x => y < x
  | some a, y, x => x ≤ a ∧ a < y ∨ a < y ∧ y < x ∨ y < x ∧ x ≤ a

variable {x y : Uuid}

theorem before_self (h : y ≠ x) : Before (some x) y x := by
  rcases Nat.lt_or_gt_of_ne h with hlt | hgt
  · exact .inr (.inr ⟨hlt, Nat.le_refl _⟩)
  · exact .inl ⟨Nat.le_refl _, hgt⟩

theorem Before.move {row : Uuid} (h : Before after y x)
    (hrow : ∀ a ∈ after, a < row) (hy : (∀ a ∈ after, a < y) → row < y) :
    Before (some row) y x := by
  cases after with
  | none => exact .inr (.inl ⟨hy nofun, h⟩)
  | some a =>
    have har : a < row := hrow a rfl
    have hay : a < y → row < y := fun hlt => hy (by rintro _ ⟨⟩; exact hlt)
    rcases h with ⟨hxa, hlt⟩ | ⟨hlt, hyx⟩ | ⟨hyx, hxa⟩
    · exact .inl ⟨Nat.le_of_lt (Nat.lt_of_le_of_lt hxa har), hay hlt⟩
    · exact .inr (.inl ⟨hay hlt, hyx⟩)
    · exact .inr (.inr ⟨hyx, Nat.le_of_lt (Nat.lt_of_le_of_lt hxa har)⟩)

theorem Before.ne {row : Uuid} (h : Before after y x)
    (hrow : ∀ a ∈ after, a < row) (hy : (∀ a ∈ after, a < y) → row < y) : row ≠ x := by
  rintro rfl
  cases after with
  | none => exact Nat.lt_asymm h (hy nofun)
  | some a =>
    have har : a < row := hrow a rfl
    rcases h with ⟨hxa, -⟩ | ⟨hlt, hyx⟩ | ⟨-, hxa⟩
    · exact Nat.not_lt.mpr hxa har
    · exact Nat.lt_asymm hyx (hy (by rintro _ ⟨⟩; exact hlt))
    · exact Nat.not_lt.mpr hxa har

theorem Before.wrap {a : Uuid} (h : Before (some a) y x) (hy : ¬ a < y) : Before none y x := by
  rcases h with ⟨-, hlt⟩ | ⟨-, hyx⟩ | ⟨hyx, -⟩
  · exact absurd hlt hy
  · exact hyx
  · exact hyx

/-- Where the passes go on, `y` comes before `x`. -/
structure Tracked (phase : Phase) (x y : Uuid) (s : State) : Prop where
  cursor : Before (s.cursor phase) y x
  walk : ∀ walk, s.walk = some walk → walk.phase = phase → Before walk.after y x

theorem save_cursor_self (phase : Phase) (saved : Option Uuid) :
    (s.save phase saved).cursor phase = saved := by
  show update s.cursor phase saved phase = saved
  rw [update_self]

theorem save_cursor_of_ne {phase' : Phase} (h : phase' ≠ phase) (saved : Option Uuid) :
    (s.save phase saved).cursor phase' = s.cursor phase' := by
  show update s.cursor phase saved phase' = s.cursor phase'
  rw [update_of_ne h]

theorem segments_after {saved through : Option Uuid}
    (h : segments saved = (after, through) :: later) :
    after = saved := by
  cases saved <;> rw [segments, List.cons.injEq, Prod.mk.injEq] at h <;> exact h.1.1.symm

theorem Tracked.enter (h : Before (s.cursor phase) y x) (number : ℕ) (phase' : Phase) :
    Tracked phase x y (s.enter number phase') := by
  obtain ⟨after, through, later, hsegments, heq⟩ := enter_eq s number phase'
  rw [heq]
  refine ⟨h, ?_⟩
  rintro _ ⟨⟩ rfl
  rw [segments_after hsegments]
  exact h

theorem Tracked.afterBatch (h : Tracked phase x y s) (hwalk : s.walk = some walk) (count : ℕ) :
    Before ((s.afterBatch walk count).cursor phase) y x := by
  unfold State.afterBatch
  split
  · exact h.cursor
  · by_cases hphase : phase = walk.phase
    · rw [hphase, save_cursor_self]
      exact h.walk walk hwalk hphase.symm
    · rw [save_cursor_of_ne hphase]
      exact h.cursor

theorem visit_eq {healthy : List Uuid}
    {visit : Visit} (h : (s.visit walk count row rest healthy).visits = s.visits ++ [visit]) :
    visit.phase = walk.phase ∧ visit.id = row.id ∧ visit.batch = s.batches ∧
      (visit.attempted = true → row.id ∉ healthy) := by
  unfold State.visit at h
  split at h
  · have heq := append_cancel_left (show s.visits ++ [_] = s.visits ++ [visit] from h)
    rw [List.cons.injEq] at heq
    rw [← heq.1]
    exact ⟨rfl, rfl, rfl, nofun⟩
  · rename_i hhealthy
    have heq := append_cancel_left (show s.visits ++ [_] = s.visits ++ [visit] from h)
    rw [List.cons.injEq] at heq
    rw [← heq.1]
    exact ⟨rfl, rfl, rfl, fun _ => hhealthy⟩

theorem next_same (s : State) (walk : Walk) (count : ℕ) :
    (s.next walk count).visits = s.visits ∧ (s.next walk count).batches = s.batches := by
  have hended := ended_next s walk count
  generalize s.next walk count = t at *
  cases hended with
  | again _ | part _ _ _ _ _ => exact ⟨afterBatch_visits count, afterBatch_batches count⟩
  | phase s' _ _ hs' =>
    have hs : s'.visits = s.visits ∧ s'.batches = s.batches := by
      rw [hs']
      exact ⟨afterBatch_visits count, afterBatch_batches count⟩
    split
    · obtain ⟨after, through, later, -, heq⟩ := enter_eq s' walk.number .second
      rw [heq]
      exact hs
    · exact hs

theorem visits_move (h : Move s s') :
    (s'.visits = s.visits ∧ s.batches ≤ s'.batches) ∨
      ∃ visit : Visit, s'.visits = s.visits ++ [visit] ∧ visit.batch = s.batches ∧
        s'.batches = s.batches := by
  cases h with
  | stay s' _ hvisits _ hbatches _ => exact .inl ⟨hvisits, Nat.le_of_eq hbatches.symm⟩
  | enter _ =>
    obtain ⟨after, through, later, -, heq⟩ :=
      enter_eq { s with passes := s.passes + 1 } s.passes .first
    rw [heq]
    exact .inl ⟨rfl, Nat.le_refl _⟩
  | query walk healthy _ => exact .inl ⟨rfl, Nat.le_succ _⟩
  | visit walk count row rest healthy _ _ =>
    right
    unfold State.visit
    split <;> exact ⟨_, rfl, rfl, rfl⟩
  | reconciled walk table stage _ _ => exact .inl ⟨rfl, Nat.le_refl _⟩
  | next walk count healthy _ _ =>
    obtain ⟨hvisits, hbatches⟩ := next_same s walk count
    exact .inl ⟨hvisits, Nat.le_of_eq hbatches.symm⟩

theorem holds_move (hsound : Sound s) (hmove : Move s s')
    (h : s.batches = s'.batches → s.Holds phase id) (heligible : s'.Eligible phase id) :
    s'.Holds phase id := by
  cases hmove with
  | stay s' hwalk _ _ hbatches _ =>
    intro walk hsome
    rcases hwalk with hwalk | hwalk
    · exact h hbatches.symm walk (by rw [← hwalk, hsome])
    · rw [hwalk] at hsome
      cases hsome
  | enter _ =>
    obtain ⟨after, through, later, -, heq⟩ :=
      enter_eq { s with passes := s.passes + 1 } s.passes .first
    rw [heq]
    rintro _ ⟨⟩ -
    exact holds_querying rfl
  | query walk healthy hwalk =>
    rintro _ ⟨⟩ rfl
    exact holds_query (s := s) heligible rfl rfl
  | visit walk count row rest healthy hwalk hstage =>
    have hread : walk.stage.read = some (count, row :: rest) := by rw [hstage]; rfl
    have hrow : Within walk.after walk.through row.id :=
      (hsound.walk walk hwalk).within row (by rw [hstage]; exact mem_cons_self)
    unfold State.visit at h ⊢
    split at h
    · rename_i hhealthy
      rw [if_pos hhealthy]
      rintro _ ⟨⟩ hphase
      exact (h rfl walk hwalk hphase).visited hread hrow rfl
    · rename_i hhealthy
      rw [if_neg hhealthy]
      rintro _ ⟨⟩ hphase
      exact (h rfl walk hwalk hphase).visited hread hrow rfl
  | reconciled walk table stage hwalk hread =>
    rintro _ ⟨⟩ hphase count rest hread'
    exact h rfl walk hwalk hphase count rest (by rw [← hread]; exact hread')
  | next walk count healthy hwalk hstage =>
    have hended := ended_next s walk count
    clear h heligible
    generalize s.next walk count = t at *
    cases hended with
    | again _ | part _ _ _ _ _ => rintro _ ⟨⟩ -; exact holds_querying rfl
    | phase s' _ _ _ =>
      split
      · obtain ⟨after, through, later, -, heq⟩ := enter_eq s' walk.number .second
        rw [heq]
        rintro _ ⟨⟩ -
        exact holds_querying rfl
      · rintro _ ⟨⟩

theorem tracked_of_attempt (hmove : Move s s') {visit : Visit}
    (hvisits : s'.visits = s.visits ++ [visit]) (hattempt : visit.Attempts phase x) (hne : y ≠ x) :
    Tracked phase x y s' := by
  have hnot : s'.visits ≠ s.visits := by
    intro heq
    rw [heq] at hvisits
    have hlength := congrArg List.length hvisits
    simp at hlength
  cases hmove with
  | visit walk count row rest healthy hwalk hstage =>
    obtain ⟨hphase, hid, -, hhealthy⟩ := visit_eq hvisits
    obtain ⟨hattempted, hvisitphase, hx⟩ := hattempt
    have hxrow : row.id = x := by rw [← hid, hx]
    have hwalkphase : walk.phase = phase := by rw [← hphase, hvisitphase]
    unfold State.visit
    rw [if_neg (hhealthy hattempted)]
    refine ⟨?_, ?_⟩
    · show Before (update s.cursor walk.phase (some row.id) phase) y x
      rw [hwalkphase, update_self, hxrow]
      exact before_self hne
    · rintro _ ⟨⟩ -
      rw [hxrow]
      exact before_self hne
  | stay s' _ hsame _ _ _ => exact absurd hsame hnot
  | enter hnone =>
    obtain ⟨after, through, later, -, heq⟩ :=
      enter_eq { s with passes := s.passes + 1 } s.passes .first
    rw [heq] at hnot
    exact absurd rfl hnot
  | query walk healthy _ | reconciled walk table stage _ _ => exact absurd rfl hnot
  | next walk count healthy _ _ => exact absurd (next_same s walk count).1 hnot

/-- **The step lemma.** While `y` is not visited it comes before `x`, and `x` is not visited. -/
theorem tracked_move (hsound : Sound s) (hholds : s.Holds phase y)
    (h : Tracked phase x y s) (hmove : Move s s')
    (hnew : ∀ visit : Visit, s'.visits = s.visits ++ [visit] → visit.phase = phase → visit.id ≠ y) :
    Tracked phase x y s' ∧
      ∀ visit : Visit, s'.visits = s.visits ++ [visit] → visit.phase = phase → visit.id ≠ x := by
  have hquiet : s'.visits = s.visits →
      ∀ visit : Visit, s'.visits = s.visits ++ [visit] → visit.phase = phase → visit.id ≠ x := by
    intro hsame visit hvisits
    rw [hsame] at hvisits
    have hlength := congrArg List.length hvisits
    simp at hlength
  cases hmove with
  | stay s' hwalk hvisits hcursor _ _ =>
    refine ⟨⟨by rw [hcursor]; exact h.cursor, ?_⟩, hquiet hvisits⟩
    intro walk hsome
    rcases hwalk with hwalk | hwalk
    · exact h.walk walk (by rw [← hwalk, hsome])
    · rw [hwalk] at hsome
      cases hsome
  | enter _ =>
    have hentered : Tracked phase x y ({ s with passes := s.passes + 1 }.enter s.passes .first) :=
      Tracked.enter (s := { s with passes := s.passes + 1 }) h.cursor s.passes .first
    refine ⟨hentered, hquiet ?_⟩
    obtain ⟨after, through, later, -, heq⟩ :=
      enter_eq { s with passes := s.passes + 1 } s.passes .first
    rw [heq]
  | query walk healthy hwalk | reconciled walk table stage hwalk _ =>
    refine ⟨⟨h.cursor, ?_⟩, hquiet rfl⟩
    rintro _ ⟨⟩ hphase
    exact h.walk walk hwalk hphase
  | visit walk count row rest healthy hwalk hstage =>
    have hwalksound := hsound.walk walk hwalk
    have hrow : Within walk.after walk.through row.id :=
      hwalksound.within row (by rw [hstage]; exact mem_cons_self)
    have hsorted : (row :: rest).Pairwise (·.id < ·.id) := by
      have hrest := hwalksound.sorted
      rwa [hstage] at hrest
    have hvisit : ∃ visit : Visit, (s.visit walk count row rest healthy).visits =
        s.visits ++ [visit] := by
      unfold State.visit
      split <;> exact ⟨_, rfl⟩
    obtain ⟨visit, hvisit⟩ := hvisit
    obtain ⟨hvisitphase, hvisitid, -⟩ := visit_eq hvisit
    -- the row lies before `y`, if that is still to come in this part
    have hbeyond : walk.phase = phase → (∀ a ∈ walk.after, a < y) → row.id < y := by
      intro hphase hafter
      have hne : row.id ≠ y := by
        rw [← hvisitid]
        exact hnew visit hvisit (by rw [hvisitphase, hphase])
      by_cases hthrough : ∀ b ∈ walk.through, y ≤ b
      · have hle := (hholds walk hwalk hphase).le (by rw [hstage]; rfl) hsorted ⟨hafter, hthrough⟩
        exact Nat.lt_of_le_of_ne hle hne
      · rw [not_forall] at hthrough
        obtain ⟨b, hb⟩ := hthrough
        rw [Classical.not_imp] at hb
        exact Nat.lt_of_le_of_lt (hrow.2 b hb.1) (Nat.lt_of_not_le hb.2)
    have hmoved : walk.phase = phase → Before (some row.id) y x := fun hphase =>
      (h.walk walk hwalk hphase).move hrow.1 (hbeyond hphase)
    refine ⟨?_, ?_⟩
    · unfold State.visit
      split
      · refine ⟨h.cursor, ?_⟩
        rintro _ ⟨⟩ hphase
        exact hmoved hphase
      · refine ⟨?_, ?_⟩
        · show Before (update s.cursor walk.phase (some row.id) phase) y x
          by_cases hphase : phase = walk.phase
          · rw [hphase, update_self]
            exact hmoved hphase.symm
          · rw [update_of_ne hphase]
            exact h.cursor
        · rintro _ ⟨⟩ hphase
          exact hmoved hphase
    · intro visit' hvisits hphase
      obtain ⟨hphase', hid, -⟩ := visit_eq hvisits
      have hwalkphase : walk.phase = phase := by rw [← hphase', hphase]
      rw [hid]
      exact (h.walk walk hwalk hwalkphase).ne hrow.1 (hbeyond hwalkphase)
  | next walk count healthy hwalk hstage =>
    refine ⟨?_, hquiet (next_same s walk count).1⟩
    have hread : walk.stage.read = some (count, []) := by rw [hstage]; rfl
    have hcursor := h.afterBatch hwalk count
    have hended := ended_next s walk count
    clear hnew hquiet
    generalize s.next walk count = t at *
    cases hended with
    | again _ =>
      refine ⟨hcursor, ?_⟩
      rintro _ ⟨⟩ hphase
      exact h.walk walk hwalk hphase
    | part after through later hcount hlater =>
      refine ⟨hcursor, ?_⟩
      rintro _ ⟨⟩ hphase
      -- only the first part is followed by another, and nothing of it is left
      have hover := (hholds walk hwalk hphase).over hread hcount
      rcases (hsound.walk walk hwalk).parted with hnil | ⟨saved, a, hparts, hthrough, hafter, -⟩
      · rw [hnil] at hlater
        cases hlater
      · rw [hparts, List.cons.injEq, Prod.mk.injEq] at hlater
        have hbefore := h.walk walk hwalk hphase
        rw [hafter] at hbefore hover
        rw [hthrough] at hover
        rw [show after = none from hlater.1.1.symm]
        refine hbefore.wrap fun hlt => hover ⟨?_, nofun⟩
        rintro _ ⟨⟩
        exact hlt
    | phase s' _ _ hs' =>
      have hcursor' : Before (s'.cursor phase) y x := by
        rw [hs']
        exact hcursor
      split
      · exact Tracked.enter hcursor' _ _
      · exact ⟨hcursor', nofun⟩

/-! ### Every run -/

def initial (table : Table) (now : ℕ) (cursor : Phase → Option Uuid) : State :=
  { table, now, cursor }

theorem sound_initial (table : Table) (now : ℕ) (cursor : Phase → Option Uuid) :
    Sound (initial table now cursor) :=
  ⟨nofun, nofun, .nil⟩

theorem sound_foldl (h : Sound s) (events : List Event) : Sound (events.foldl step s) := by
  have hrun := (run_function_iff step s events _).mpr rfl
  refine hrun.invariant Sound ?_ h
  rintro s event _ hs rfl
  exact sound_step hs event

theorem visits_foldl (s : State) (events : List Event) :
    s.visits <+: (events.foldl step s).visits := by
  have hrun := (run_function_iff step s events _).mpr rfl
  refine hrun.invariant (fun t => s.visits <+: t.visits) ?_ (prefix_refl _)
  rintro t event _ ht rfl
  rcases visits_move (move_step t event) with ⟨hsame, -⟩ | ⟨visit, hvisits, -⟩
  · rw [hsame]
    exact ht
  · rw [hvisits]
    exact ht.trans (prefix_append _ _)

theorem visits_initial {es events : List Event} (h : es <+: events) :
    (es.foldl step s).visits <+: (events.foldl step s).visits := by
  obtain ⟨rest, rfl⟩ := h
  rw [foldl_append]
  exact visits_foldl _ rest

theorem visit_at {front middle rest before after : List Visit} {first second visit : Visit}
    (h : front ++ first :: (middle ++ second :: rest) = before ++ visit :: after) :
    before.length < front.length ∨ before.length = front.length ∧ visit = first ∨
      front.length < before.length ∧ visit ∈ middle ∧
        before.length < (front ++ first :: middle).length ∨
      before.length = (front ++ first :: middle).length ∧ visit = second ∨
      (front ++ first :: middle).length < before.length := by
  have hat : (front ++ first :: (middle ++ second :: rest))[before.length]? = some visit := by
    rw [h, List.getElem?_append_right (Nat.le_refl _), Nat.sub_self, List.getElem?_cons_zero]
  rw [length_append, length_cons]
  rcases Nat.lt_trichotomy before.length front.length with hlt | heq | hgt
  · exact .inl hlt
  · rw [heq, List.getElem?_append_right (Nat.le_refl _), Nat.sub_self, List.getElem?_cons_zero,
      Option.some.injEq] at hat
    exact .inr (.inl ⟨heq, hat.symm⟩)
  · obtain ⟨k, hk⟩ := Nat.exists_eq_add_of_lt hgt
    rw [hk, List.getElem?_append_right (by omega), show front.length + k + 1 - front.length = k + 1
      by omega, List.getElem?_cons_succ] at hat
    rcases Nat.lt_trichotomy k middle.length with hlt | heq | hgt'
    · rw [List.getElem?_append_left hlt] at hat
      exact .inr (.inr (.inl ⟨hgt, mem_of_getElem? hat, by omega⟩))
    · rw [heq, List.getElem?_append_right (Nat.le_refl _), Nat.sub_self, List.getElem?_cons_zero,
        Option.some.injEq] at hat
      exact .inr (.inr (.inr (.inl ⟨by omega, hat.symm⟩)))
    · exact .inr (.inr (.inr (.inr (by omega))))

theorem attentive (h : Sound s) (hwalk : s.walk = none) (hvisits : s.visits = [])
    (events : List Event) : Attentive (fun first _ s => first.batch ≤ s.batches) s events := by
  intro phase x y front first middle second rest hne hall hfirst hsecond heligible
  by_contra hnone
  -- what holds as long as `y` is not visited: it comes before `x` once that was attempted
  have hrun := always_while step (s := s)
    (fun t => t.visits <+: (events.foldl step s).visits ∧
      (first.batch ≤ t.batches → t.visits.length ≤ (front ++ first :: middle).length →
        t.Eligible phase y))
    (fun t => Sound t ∧ t.visits.length ≤ (front ++ first :: middle).length ∧
      (first.batch ≤ t.batches → t.Holds phase y) ∧
      (front.length < t.visits.length → first.batch ≤ t.batches ∧ Tracked phase x y t))
    ?_ ?_ events ?_
  · obtain ⟨-, hlength, -⟩ := hrun
    rw [hall] at hlength
    simp only [length_append, length_cons] at hlength
    omega
  · refine ⟨h, by simp [hvisits], ?_, by simp [hvisits]⟩
    intro _ walk hsome
    rw [hwalk] at hsome
    cases hsome
  · rintro t event ⟨-, -⟩ ⟨hearlier, hnext⟩ ⟨hsound, hlength, hholds, htracked⟩
    have hmove := move_step t event
    have hsound' := sound_step hsound event
    generalize step t event = t' at *
    -- the batch of a pass has `y`, as long as the visits do not go beyond the second attempt
    have hholds' : t'.visits.length ≤ (front ++ first :: middle).length →
        first.batch ≤ t'.batches → t'.Holds phase y := by
      intro hlength' hbatch
      refine holds_move hsound hmove (fun heq => hholds ?_) (hnext hbatch hlength')
      rw [heq]
      exact hbatch
    rcases visits_move hmove with ⟨hsame, hbatches⟩ | ⟨visit, hvisit, hbatch, hbatches⟩
    · have hlength' : t'.visits.length ≤ (front ++ first :: middle).length := by
        rw [hsame]
        exact hlength
      refine ⟨hsound', hlength', hholds' hlength', ?_⟩
      intro hlt
      rw [hsame] at hlt
      obtain ⟨hread, htrack⟩ := htracked hlt
      refine ⟨Nat.le_trans hread hbatches, (tracked_move hsound (hholds hread) htrack hmove ?_).1⟩
      intro visit hvisit
      rw [hsame] at hvisit
      have hlen := congrArg List.length hvisit
      simp at hlen
    · have hgrown : t'.visits.length = t.visits.length + 1 := by
        rw [hvisit, length_append, length_singleton]
      obtain ⟨after, hafter⟩ := hearlier
      rw [hall, hvisit, append_assoc, singleton_append] at hafter
      have hlong : (front ++ first :: middle).length = front.length + (middle.length + 1) := by
        rw [length_append, length_cons]
      rcases visit_at hafter.symm with hlt | ⟨heq, rfl⟩ | ⟨hgt, hmem, hlt⟩ | ⟨heq, rfl⟩ | hgt
      · have hlength' : t'.visits.length ≤ (front ++ first :: middle).length := by omega
        exact ⟨hsound', hlength', hholds' hlength', fun hlt' => by omega⟩
      · have hlength' : t'.visits.length ≤ (front ++ visit :: middle).length := by omega
        refine ⟨hsound', hlength', hholds' hlength', fun _ => ⟨?_, ?_⟩⟩
        · exact Nat.le_of_eq (hbatch.trans hbatches.symm)
        · exact tracked_of_attempt hmove hvisit hfirst hne
      · have hlength' : t'.visits.length ≤ (front ++ first :: middle).length := by omega
        obtain ⟨hread, htrack⟩ := htracked hgt
        refine ⟨hsound', hlength', hholds' hlength', fun _ => ⟨by rw [hbatches]; exact hread, ?_⟩⟩
        refine (tracked_move hsound (hholds hread) htrack hmove ?_).1
        intro visit' hvisit' hphase hid
        rw [hvisit, append_cancel_left_eq, List.cons.injEq] at hvisit'
        exact hnone ⟨visit, hmem, by rw [hvisit'.1]; exact ⟨hphase, hid⟩⟩
      · -- the second attempt would come to `x` before `y`
        obtain ⟨hread, htrack⟩ := htracked (by omega)
        refine absurd hsecond.2.2
          ((tracked_move hsound (hholds hread) htrack hmove ?_).2 visit hvisit hsecond.2.1)
        intro visit' hvisit' _ hid
        rw [hvisit, append_cancel_left_eq, List.cons.injEq] at hvisit'
        rw [← hvisit'.1, hsecond.2.2] at hid
        exact hne hid.symm
      · omega
  · intro es hes
    exact ⟨visits_initial hes, fun hbatch hlength => heligible es hes hbatch hlength⟩

theorem complete_of_run (h : Sound s) (hwalk : s.walk = none) (hcompleted : s.completed = [])
    (events : List Event) {number : ℕ}
    (heligible : ∀ es, es <+: events → (es.foldl step s).InPhase number phase →
      (es.foldl step s).Eligible phase id) :
    Complete number phase id (events.foldl step s) := by
  refine always_while step (fun t => t.InPhase number phase → t.Eligible phase id) _ ?_ ?_ events
    heligible
  · refine ⟨h, ?_, by simp [hcompleted]⟩
    intro walk hsome
    rw [hwalk] at hsome
    cases hsome
  · intro t event hcond _ hcomplete
    exact complete_move hcomplete hcond (move_step t event) (sound_step hcomplete.sound event)

/-- **Passes are fair**, whatever the tables, the saved cursors and the events are. -/
theorem fair_of_run (table : Table) (now : ℕ) (cursor : Phase → Option Uuid)
    (events : List Event) : Fair (initial table now cursor) events := by
  have hsound := sound_initial table now cursor
  refine ⟨(sound_foldl hsound events).nodup, ?_, attentive hsound rfl rfl events⟩
  intro number phase id hmem heligible
  exact (complete_of_run hsound rfl rfl events heligible).completed hmem

def lateTable : Table where
  rows := [{ id := 1 }, { id := 2, nextReconcileAt := some 10 }, { id := 3 }]

/-- The second account is due before the first is attempted, and after their batch was read. -/
def lateRun : List Event :=
  [.start, .query [], .tick 10, .visit false, .reconciled .succeeded, .visit false,
    .reconciled .succeeded, .next, .query [], .next, .start, .query [], .next, .query [],
    .visit false]

/-- What becomes eligible between the reading of a batch and an attempt is passed over: the first
account is attempted twice, and the second is due from the first attempt on and not visited. -/
theorem late_account : ¬ Attentive (fun _ front s => front.length < s.visits.length)
    (initial lateTable 0 fun _ => none) lateRun := by
  intro h
  have heligible : ∀ es ∈ lateRun.inits,
      ([] : List Visit).length < (es.foldl step (initial lateTable 0 fun _ => none)).visits.length →
      (es.foldl step (initial lateTable 0 fun _ => none)).visits.length ≤ 2 →
      (es.foldl step (initial lateTable 0 fun _ => none)).Eligible .first 2 := by
    decide +kernel
  obtain ⟨visit, hvisit, -, hid⟩ := h .first 1 2 [] ⟨0, .first, 1, true, 1⟩
    [⟨0, .first, 3, true, 1⟩] ⟨1, .first, 1, true, 4⟩ [] (by decide) (by decide +kernel)
    ⟨rfl, rfl, rfl⟩ ⟨rfl, rfl, rfl⟩
    (fun es hes => heligible es ((List.mem_inits _ _).mpr hes))
  rw [List.mem_singleton] at hvisit
  rw [hvisit] at hid
  exact absurd hid (by decide)

end Api.Passes
