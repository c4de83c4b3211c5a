import TeleBezel.Api.QuickReplies

/-!
# The updates of a reorder

`QuickReplyRepository::reorder` moves one row at a time, and the table has a unique index over the
positions of an instance that is looked at after each update. The ids are walked twice: first to
positions past all that are taken, then to their final ones.
-/

open List

namespace Api.QuickReplies

def write (rows : List QuickReply) : String × ℕ → List QuickReply
  | (id, position) => rows.map fun row => if row.id = id then { row with position } else row

def walk (base : ℕ) (ids : List String) : List (String × ℕ) :=
  ids.zipIdx.map fun (id, index) => (id, base + index)

/-- The updates of `QuickReplyRepository::reorder`. -/
def writes (s : State) (ids : List String) : List (String × ℕ) :=
  [s.nextPosition 1, 0].flatMap fun base => walk base ids

/-- The unique keys of the table. -/
structure Stored (rows : List QuickReply) : Prop where
  ids : (rows.map (·.id)).Nodup
  positions : (rows.map (·.position)).Nodup

/-- `reorder` does what it is for. -/
def Reorders (s : State) (ids : List String) : Prop :=
  ((s.rows.map (·.id)).Perm ids →
    (∀ k, ((((writes s ids).take k).foldl write s.rows).map (·.position)).Nodup) ∧
    ∃ s', s.reorder ids = some s' ∧
      s'.all.map (fun row => (row.id, row.position)) = ids.zipIdx ∧
      s'.rows.map (fun row => (row.id, row.text)) = s.rows.map (fun row => (row.id, row.text))) ∧
  (¬ (s.rows.map (·.id)).Perm ids → step s (.reorder ids) = s)

/-! ## One walk -/

def moved (base : ℕ) (ids : List String) (row : QuickReply) : QuickReply :=
  if row.id ∈ ids then { row with position := base + ids.idxOf row.id } else row

variable {s : State} {rows : List QuickReply} {ids : List String} {base : ℕ}

@[simp]
theorem moved_id (row : QuickReply) : (moved base ids row).id = row.id := by
  unfold moved
  split <;> rfl

@[simp]
theorem moved_text (row : QuickReply) : (moved base ids row).text = row.text := by
  unfold moved
  split <;> rfl

theorem moved_of_mem {row : QuickReply} (h : row.id ∈ ids) :
    (moved base ids row).position = base + ids.idxOf row.id := by
  rw [moved, if_pos h]

theorem placed_eq (hids : ids.Nodup) :
    State.placed base ids rows = rows.map (moved base ids) := by
  -- over the ids from the last one on: the walk over all but the last comes first
  induction ids using List.reverseRecOn with
  | nil =>
    have hsame : moved base [] = id := by
      ext1 row
      simp [moved]
    simp [State.placed, hsame]
  | append_singleton done id ih =>
    obtain ⟨hdone, -, hnew⟩ := nodup_append.mp hids
    have hnew : id ∉ done := fun hmem => hnew id hmem id (by simp) rfl
    have hlast : State.placed base (done ++ [id]) rows =
        write (State.placed base done rows) (id, base + done.length) := by
      simp [State.placed, zipIdx_append, write]
    rw [hlast, ih hdone, write, map_map]
    refine map_congr_left fun row _ => ?_
    by_cases hrow : row.id = id
    · simp [moved, hrow, hnew, idxOf_append]
    · by_cases hmem : row.id ∈ done
      · simp [moved, hrow, hmem, idxOf_append]
      · simp [moved, hrow, hmem]

theorem foldl_walk (base : ℕ) (ids : List String) (rows : List QuickReply) :
    (walk base ids).foldl write rows = State.placed base ids rows := by
  rw [walk, foldl_map]
  rfl

theorem take_walk (base : ℕ) (ids : List String) (k : ℕ) :
    (walk base ids).take k = walk base (ids.take k) := by
  apply ext_getElem
  · simp [walk]
  · intro i h₁ h₂
    simp [walk]

theorem nodup_placed (hstored : Stored rows) (hids : ids.Nodup)
    (haway : ∀ row ∈ rows, row.position < base ∨ base + ids.idxOf row.id ≤ row.position)
    (k : ℕ) : ((State.placed base (ids.take k) rows).map (·.position)).Nodup := by
  have hfirst : ids.take k <+: ids := List.take_prefix k ids
  rw [placed_eq (hids.sublist hfirst.sublist), map_map]
  refine hstored.ids.of_map.map_on fun a ha b hb hsame => ?_
  have hinj : ∀ {a b : QuickReply}, a ∈ rows → b ∈ rows → a.id = b.id → a = b :=
    fun ha hb => inj_on_of_nodup_map hstored.ids ha hb
  -- an id among the first `k` has there the place that it has among all
  have hplace : ∀ {id : String}, id ∈ ids.take k → (ids.take k).idxOf id = ids.idxOf id := by
    intro id hmem
    obtain ⟨rest, hrest⟩ := hfirst
    conv_rhs => rw [← hrest, idxOf_append_of_mem hmem]
  have hlater : ∀ {id id' : String}, id ∈ ids.take k → id' ∉ ids.take k →
      ids.idxOf id < ids.idxOf id' := by
    intro id id' hmem hmem'
    obtain ⟨rest, hrest⟩ := hfirst
    have hlt := idxOf_lt_length_of_mem hmem
    have hid : (ids.take k ++ rest).idxOf id = _ := idxOf_append_of_mem hmem
    have hid' : (ids.take k ++ rest).idxOf id' = _ := idxOf_append_of_notMem hmem'
    rw [hrest] at hid hid'
    omega
  simp only [Function.comp_apply, moved] at hsame
  split_ifs at hsame with ha' hb' hb'
  · rw [hplace ha', hplace hb'] at hsame
    apply hinj ha hb
    refine (idxOf_inj (mem_of_mem_take ha')).mp ?_
    simpa using hsame
  · have hlt := hlater ha' hb'
    have hb := haway b hb
    simp only [hplace ha'] at hsame
    omega
  · have hlt := hlater hb' ha'
    have ha := haway a ha
    simp only [hplace hb'] at hsame
    omega
  · exact inj_on_of_nodup_map hstored.positions ha hb hsame

/-! ## Both walks -/

theorem position_lt_nextPosition (s : State) {row : QuickReply} (h : row ∈ s.rows) (first : ℕ) :
    row.position < s.nextPosition first := by
  have hmem : row.position ∈ s.rows.map (·.position) := mem_map_of_mem h
  unfold State.nextPosition
  cases hmax : (s.rows.map (·.position)).max? with
  | none => simp [List.max?_eq_none_iff.mp hmax] at hmem
  | some greatest => exact Nat.lt_succ_of_le ((List.max?_eq_some_iff.mp hmax).2 _ hmem)

theorem fits_iff (s : State) :
    s.nextPosition 1 + s.rows.length ≤ smallintMax + 1 ↔
      ∀ row ∈ s.rows, row.position + s.rows.length ≤ smallintMax := by
  constructor
  · intro h row hrow
    have hlt := position_lt_nextPosition s hrow 1
    omega
  · intro h
    unfold State.nextPosition
    cases hmax : (s.rows.map (·.position)).max? with
    | none =>
      have hnil : s.rows = [] := by simpa using hmax
      simp [hnil, smallintMax]
    | some greatest =>
      obtain ⟨row, hrow, rfl⟩ := mem_map.mp (List.max?_eq_some_iff.mp hmax).1
      have hle := h row hrow
      dsimp only
      omega

theorem nodup_writes (hstored : Stored s.rows) (hperm : (s.rows.map (·.id)).Perm ids) (k : ℕ) :
    ((((writes s ids).take k).foldl write s.rows).map (·.position)).Nodup := by
  have hids : ids.Nodup := hperm.nodup_iff.mp hstored.ids
  have hfirst : ∀ k, ((State.placed (s.nextPosition 1) (ids.take k) s.rows).map
      (·.position)).Nodup := by
    refine nodup_placed hstored hids fun row hrow => ?_
    exact .inl (position_lt_nextPosition s hrow 1)
  simp only [writes, flatMap_cons, flatMap_nil, append_nil]
  rw [take_append, foldl_append, take_walk, take_walk, foldl_walk, foldl_walk]
  rcases Nat.le_total k ids.length with hk | hk
  · -- the first walk is under way
    have hnone : k - (walk (s.nextPosition 1) ids).length = 0 := by simp [walk, hk]
    rw [hnone]
    exact hfirst k
  · -- the first walk is done: all rows stand past the positions that the second one goes to
    rw [take_of_length_le hk]
    refine nodup_placed ⟨?_, ?_⟩ hids (fun row hrow => ?_) _
    · rw [placed_eq hids, map_map]
      simpa [Function.comp_def] using hstored.ids
    · simpa using hfirst ids.length
    · rw [placed_eq hids] at hrow
      obtain ⟨old, hold, rfl⟩ := mem_map.mp hrow
      have hmem : old.id ∈ ids := hperm.subset (mem_map_of_mem hold)
      rw [moved_of_mem hmem, moved_id]
      omega

theorem placed_placed (hstored : Stored rows) (hperm : (rows.map (·.id)).Perm ids) :
    State.placed 0 ids (State.placed base ids rows) = rows.map (moved 0 ids) := by
  have hids : ids.Nodup := hperm.nodup_iff.mp hstored.ids
  rw [placed_eq hids, placed_eq hids, map_map]
  refine map_congr_left fun row hrow => ?_
  have hmem : row.id ∈ ids := hperm.subset (mem_map_of_mem hrow)
  simp [moved, hmem]

theorem all_moved (hstored : Stored s.rows) (hperm : (s.rows.map (·.id)).Perm ids)
    (hrows : rows = s.rows.map (moved 0 ids)) :
    (s.changed rows).all.map (fun row => (row.id, row.position)) = ids.zipIdx := by
  have hids : ids.Nodup := hperm.nodup_iff.mp hstored.ids
  have hzip : ids.zipIdx = ids.map fun id => (id, ids.idxOf id) := by
    apply ext_getElem
    · simp
    · intro i h₁ h₂
      simp [hids.idxOf_getElem]
  have hsame : (s.changed rows).all.Perm rows := perm_insertionSort _ _
  -- both lists have the same members in ascending order of the positions
  have hmembers : ((s.changed rows).all.map fun row => (row.id, row.position)).Perm ids.zipIdx := by
    refine (hsame.map _).trans ?_
    have hmap : rows.map (fun row => (row.id, row.position)) =
        (s.rows.map (·.id)).map fun id => (id, ids.idxOf id) := by
      rw [hrows, map_map, map_map]
      refine map_congr_left fun row hrow => ?_
      have hmem : row.id ∈ ids := hperm.subset (mem_map_of_mem hrow)
      simp [moved_of_mem hmem]
    rw [hmap, hzip]
    exact hperm.map _
  have hsorted : ((s.changed rows).all.map fun row => (row.id, row.position)).Pairwise
      fun a b => a.2 ≤ b.2 := by
    rw [pairwise_map]
    exact pairwise_insertionSort (fun a b : QuickReply => a.position ≤ b.position) rows
  have hzipped : ids.zipIdx.Pairwise fun a b => a.2 ≤ b.2 := by
    rw [pairwise_iff_getElem]
    intro i j hi hj hij
    simp [hij.le]
  refine hmembers.eq_of_pairwise (fun a b ha hb hab hba => ?_) hsorted hzipped
  have hmem : ∀ c ∈ ids.zipIdx, c.2 = ids.idxOf c.1 := by
    intro c hc
    rw [hzip] at hc
    obtain ⟨id, -, rfl⟩ := mem_map.mp hc
    rfl
  have hle : a.2 = b.2 := Nat.le_antisymm hab hba
  have hfst : a.1 = b.1 := by
    have ha' := hmembers.subset ha
    have hain : a.1 ∈ ids := by
      rw [hzip] at ha'
      obtain ⟨id, hid, rfl⟩ := mem_map.mp ha'
      exact hid
    refine (idxOf_inj hain).mp ?_
    rw [← hmem a ha', ← hmem b hb, hle]
  exact Prod.ext hfst hle

theorem isPerm_all (s : State) (ids : List String) :
    (s.all.map (·.id)).isPerm ids = true ↔ (s.rows.map (·.id)).Perm ids := by
  have hsame : (s.all.map (·.id)).Perm (s.rows.map (·.id)) := (perm_insertionSort _ _).map _
  rw [isPerm_iff]
  exact ⟨hsame.symm.trans, hsame.trans⟩

/-- **A reorder does what is asked** exactly when the ids are not those that there are, or the
positions past all that are taken are still values of the column. -/
theorem reorders_iff (s : State) (hstored : Stored s.rows) (ids : List String) :
    Reorders s ids ↔
      ((s.rows.map (·.id)).Perm ids → ∀ row ∈ s.rows, row.position + s.rows.length ≤ smallintMax) := by
  by_cases hperm : (s.rows.map (·.id)).Perm ids
  · have hlength : ids.length = s.rows.length := by simpa using hperm.length_eq.symm
    have hall := (isPerm_all s ids).mpr hperm
    simp only [Reorders, hperm, true_implies, not_true_eq_false, false_implies, and_true]
    rw [← fits_iff, ← hlength]
    constructor
    · rintro ⟨-, s', hs, -⟩
      unfold State.reorder at hs
      dsimp only at hs
      split_ifs at hs with hfails
      simp only [not_or, not_lt] at hfails
      exact hfails.2
    · intro hfits
      refine ⟨nodup_writes hstored hperm,
        s.changed (State.placed 0 ids (State.placed (s.nextPosition 1) ids s.rows)), ?_, ?_, ?_⟩
      · unfold State.reorder
        rw [if_neg (by simp [hall, hfits])]
      · exact all_moved hstored hperm (placed_placed hstored hperm)
      · simp [State.changed, placed_placed hstored hperm, Function.comp_def]
  · have hall : ¬ (s.all.map (·.id)).isPerm ids = true := fun h => hperm ((isPerm_all s ids).mp h)
    simp only [Reorders, hperm, false_implies, true_and, not_false_eq_true, true_implies, iff_true]
    simp [step, State.reorder, hall]

/-- Two replies with a gap between them change places. -/
theorem reorders_two : Reorders { rows := [⟨"a", "Yes", 4⟩, ⟨"b", "No", 7⟩] } ["b", "a"] :=
  (reorders_iff _ ⟨by decide, by decide⟩ _).mpr fun _ => by decide

/-- The only reply stands at the greatest value of the column. -/
theorem greatest_position : ¬ Reorders { rows := [⟨"a", "Yes", 32767⟩] } ["a"] := by
  intro h
  obtain ⟨-, s', hs, -⟩ := h.1 (List.Perm.refl _)
  have hnone : State.reorder { rows := [⟨"a", "Yes", 32767⟩] } ["a"] = none := by decide
  simp [hnone] at hs

end Api.QuickReplies
