import TeleBezel.Api.Intents

/-!
# Renditions

`TelegramMediaService::media` of `backend-api/app` looks once whether an account is active, asks the
runtime, renders the image and puts it into the store of renditions. `logout` and `remove` of
`TelegramAccountService` change the row and then forget what the store has of the account: they read
its directory, and remove what they have found. Here are the row of one account and its directory. What
a request asks and is answered, the other accounts and what a file holds are left out; a file is its
key, and the store drops files as it likes.
-/

open List

namespace Api.Renditions

open Transition

/-- A request of `media` under way, with the key of its image once that is rendered. -/
structure Media where
  id : ℕ
  key : Option String := none

/-- A `logout` or a `remove` that has changed the row and is about to forget the account. -/
structure Forgetting where
  id : ℕ
  /-- What it has found in the directory, once it has read it. -/
  found : Option (List String) := none
  /-- The account was active again since the row was changed. -/
  outdated : Bool := false

structure State where
  row : AccountData
  files : List String := []
  requests : List Media := []
  operations : List Forgetting := []
  /-- A logout or a removal has returned since the account was active. -/
  returned : Bool := false

inductive Event
  /-- A transition of the row; nobody forgets the account after it. -/
  | change (change : Change)
  | logout (operation : ℕ) (uuid : Uuid)
  | remove (operation : ℕ) (uuid : Uuid)
  /-- `forgetAccount` reads the directory. -/
  | list (operation : ℕ)
  /-- `forgetAccount` removes what it has found, and maybe files that came later; then the logout or
  the removal returns. -/
  | unlink (operation : ℕ) (later : List String)
  /-- `media` finds the account active. -/
  | media (request : ℕ)
  /-- An image is rendered. -/
  | render (request : ℕ) (key : String)
  /-- An image is stored, and the request ends. -/
  | put (request : ℕ)
  /-- A request ends and stores nothing. -/
  | leave (request : ℕ)
  /-- The store drops files. -/
  | trim (dropped : List String)

namespace State

def changes (s : State) (row : AccountData) : State :=
  if row.lifecycle = .active then
    { s with
      row
      returned := false
      operations := s.operations.map fun operation => { operation with outdated := true } }
  else { s with row }

def forgets (s : State) (id : ℕ) : State :=
  if s.operations.any (·.id = id) then s else { s with operations := s.operations ++ [{ id }] }

def drops (s : State) (dropped : List String) : State :=
  { s with files := s.files.filter (· ∉ dropped) }

/-- The first part of `forgetAccount`. -/
def list (s : State) (id : ℕ) : State :=
  { s with operations := s.operations.map fun operation =>
      if operation.id = id then { operation with found := some s.files } else operation }

/-- The second part of `forgetAccount`. -/
def unlink (s : State) (id : ℕ) (later : List String) : State :=
  match s.operations.find? (·.id = id) with
  | some ⟨_, some found, outdated⟩ =>
    { s.drops (found ++ later) with
      operations := s.operations.filter (·.id ≠ id)
      returned := s.returned || !outdated }
  | _ => s

def leaves (s : State) (id : ℕ) : State := { s with requests := s.requests.filter (·.id ≠ id) }

def image (s : State) (id : ℕ) : Option String := (s.requests.find? (·.id = id)).bind (·.key)

def put (s : State) (id : ℕ) : State :=
  match s.image id with
  | some key => { s with files := if key ∈ s.files then s.files else s.files ++ [key] }.leaves id
  | none => s

end State

def step (s : State) : Event → State
  | .change change => s.changes (s.row.after change)
  | .logout operation uuid =>
    match s.row.logout uuid with
    | .ok row => (s.changes row).forgets operation
    | .error _ => s
  | .remove operation uuid =>
    -- the removal of an account that is removed returns at once, and forgets nothing
    if s.row.lifecycle = .removed then { s with returned := true }
    else (s.changes (s.row.remove uuid)).forgets operation
  | .list operation => s.list operation
  | .unlink operation later => s.unlink operation later
  | .media request =>
    if s.row.lifecycle = .active ∧ ¬ s.requests.any (·.id = request) then
      { s with requests := s.requests ++ [{ id := request }] }
    else s
  | .render request key =>
    { s with requests := s.requests.map fun other =>
        if other.id = request then { other with key := some key } else other }
  | .put request => s.put request
  | .leave request => s.leaves request
  | .trim dropped => s.drops dropped

/-- **The store has nothing of the account**, once a logout or a removal has returned since the account
was active, and no request is under way. -/
def Forgotten (s : State) : Prop :=
  s.row.lifecycle ≠ .active → s.returned = true → s.requests = [] → s.files = []

/-- An event that ends something: a request that stores nothing, or an operation that removes what it
has found. -/
def Ends : Event → Prop
  | .leave _ => True
  | .unlink _ later => later = []
  | _ => False

/-- The store has nothing of the account in whatever state the requests and the operations under way
lead to by their ends. -/
def Closed (s : State) : Prop :=
  ∀ after : List Event, (∀ event ∈ after, Ends event) → Forgotten (after.foldl step s)

/-- An image is stored while the account is active, or while no operation has returned since, and those
that have read the directory have found the file there. A removal that finds the account removed finds
the directory empty. -/
def Prompt (s : State) : Event → Prop
  | .put request => ∀ key ∈ s.image request, s.row.lifecycle ≠ .active →
    s.returned = false ∧ ∀ operation ∈ s.operations, operation.outdated = false →
      ∀ found ∈ operation.found, key ∈ found
  | .remove _ _ => s.row.lifecycle = .removed → s.files = []
  | _ => True

instance (s : State) : (event : Event) → Decidable (Prompt s event)
  | .put request => inferInstanceAs (Decidable (∀ key ∈ s.image request, _ → _ ∧
      ∀ operation ∈ s.operations, _ → ∀ found ∈ operation.found, _))
  | .remove _ _ => inferInstanceAs (Decidable (_ → _))
  | .change _ | .logout _ _ | .list _ | .unlink _ _ | .media _ | .render _ _ | .leave _
  | .trim _ => isTrue trivial

/-- What a run keeps: there is nothing once an operation has returned, and nothing but what those have
found that have read the directory. -/
structure Sound (s : State) : Prop where
  files : s.returned = true → s.files = []
  found : ∀ operation ∈ s.operations, operation.outdated = false →
    ∀ found, operation.found = some found → s.files ⊆ found
  /-- What has returned, and what is not outdated, is of the time since the account was active. -/
  returned : s.returned = true → s.row.lifecycle ≠ .active
  current : ∀ operation ∈ s.operations, operation.outdated = false → s.row.lifecycle ≠ .active
  distinct : ∀ a ∈ s.operations, ∀ b ∈ s.operations, a.id = b.id → a = b

variable {s s' : State}

theorem Sound.forgotten (h : Sound s) : Forgotten s := fun _ hreturned _ => h.files hreturned

theorem Sound.changes (h : Sound s) (row : AccountData) : Sound (s.changes row) := by
  unfold State.changes
  by_cases hactive : row.lifecycle = .active
  · rw [if_pos hactive]
    have houtdated : ∀ operation ∈ s.operations.map fun operation : Forgetting =>
        { operation with outdated := true }, operation.outdated = true := by
      intro operation hmem
      obtain ⟨before, -, rfl⟩ := mem_map.mp hmem
      rfl
    refine ⟨nofun, fun operation hmem hcurrent => ?_, nofun, fun operation hmem hcurrent => ?_, ?_⟩
    · exact absurd ((houtdated operation hmem).symm.trans hcurrent) nofun
    · exact absurd ((houtdated operation hmem).symm.trans hcurrent) nofun
    · intro a ha b hb hsame
      obtain ⟨first, hfirst, rfl⟩ := mem_map.mp ha
      obtain ⟨second, hsecond, rfl⟩ := mem_map.mp hb
      rw [h.distinct first hfirst second hsecond hsame]
  · rw [if_neg hactive]
    exact ⟨h.files, h.found, fun _ => hactive, fun _ _ _ => hactive, h.distinct⟩

theorem lifecycle_changes (row : AccountData) : (s.changes row).row.lifecycle = row.lifecycle := by
  unfold State.changes
  split_ifs <;> rfl

theorem Sound.forgets (h : Sound s) (hrow : s.row.lifecycle ≠ .active) (id : ℕ) :
    Sound (s.forgets id) := by
  unfold State.forgets
  by_cases hused : s.operations.any (·.id = id) = true
  · rw [if_pos hused]
    exact h
  · rw [if_neg hused]
    have hnew : ∀ operation ∈ s.operations, operation.id ≠ id := by
      intro operation hmem hsame
      exact hused (any_eq_true.mpr ⟨operation, hmem, decide_eq_true hsame⟩)
    refine ⟨h.files, fun operation hmem hcurrent found hfound => ?_, h.returned,
      fun _ _ _ => hrow, fun a ha b hb hsame => ?_⟩
    · rcases mem_append.mp hmem with hmem | hmem
      · exact h.found operation hmem hcurrent found hfound
      · rw [mem_singleton.mp hmem] at hfound
        cases hfound
    · rcases mem_append.mp ha with ha | ha
      · rcases mem_append.mp hb with hb | hb
        · exact h.distinct a ha b hb hsame
        · rw [mem_singleton.mp hb] at hsame
          exact absurd hsame (hnew a ha)
      · rcases mem_append.mp hb with hb | hb
        · rw [mem_singleton.mp ha] at hsame
          exact absurd hsame.symm (hnew b hb)
        · rw [mem_singleton.mp ha, mem_singleton.mp hb]

theorem Sound.of_files (h : Sound s) (hfiles : s'.files ⊆ s.files) (hrow : s'.row = s.row)
    (hoperations : s'.operations = s.operations) (hreturned : s'.returned = s.returned) :
    Sound s' := by
  refine ⟨fun hs => ?_, ?_, ?_, ?_, ?_⟩
  · rw [hreturned] at hs
    have hnone := h.files hs
    rw [hnone] at hfiles
    exact subset_nil.mp hfiles
  · rw [hoperations]
    intro operation hmem hcurrent found hfound
    exact List.Subset.trans hfiles (h.found operation hmem hcurrent found hfound)
  · rw [hreturned, hrow]
    exact h.returned
  · rw [hoperations, hrow]
    exact h.current
  · rw [hoperations]
    exact h.distinct

theorem Sound.list (h : Sound s) (id : ℕ) : Sound (s.list id) := by
  have hids : ∀ operation : Forgetting, (if operation.id = id then
      { operation with found := some s.files } else operation).id = operation.id := by
    intro operation
    split_ifs <;> rfl
  refine ⟨h.files, fun operation hmem hcurrent found hfound => ?_, h.returned,
    fun operation hmem hcurrent => ?_, fun a ha b hb hsame => ?_⟩
  · obtain ⟨before, hbefore, rfl⟩ := mem_map.mp hmem
    split_ifs at hcurrent hfound
    · cases hfound
      exact List.Subset.refl _
    · exact h.found before hbefore hcurrent found hfound
  · obtain ⟨before, hbefore, rfl⟩ := mem_map.mp hmem
    refine h.current before hbefore ?_
    split_ifs at hcurrent <;> exact hcurrent
  · obtain ⟨first, hfirst, rfl⟩ := mem_map.mp ha
    obtain ⟨second, hsecond, rfl⟩ := mem_map.mp hb
    rw [hids, hids] at hsame
    rw [h.distinct first hfirst second hsecond hsame]

theorem Sound.unlink (h : Sound s) (id : ℕ) (later : List String) : Sound (s.unlink id later) := by
  unfold State.unlink
  split
  · rename_i rid found outdated hop
    have hmem := mem_of_find?_eq_some hop
    have hsub : (s.files.filter (· ∉ found ++ later)) ⊆ s.files := filter_subset_self _
    refine ⟨fun hreturned => ?_, fun operation hother hcurrent other hfound => ?_,
      fun hreturned => ?_, fun operation hother hcurrent => ?_, fun a ha b hb hsame => ?_⟩
    · -- what it has not found was not there
      cases outdated with
      | true =>
        rw [Bool.not_true, Bool.or_false] at hreturned
        show s.files.filter _ = []
        rw [h.files hreturned]
        rfl
      | false =>
        refine filter_eq_nil_iff.mpr fun key hkey => ?_
        have hin := h.found _ hmem rfl found rfl hkey
        simp [hin]
    · exact List.Subset.trans hsub (h.found operation (mem_filter.mp hother).1 hcurrent other hfound)
    · cases outdated with
      | true =>
        rw [Bool.not_true, Bool.or_false] at hreturned
        exact h.returned hreturned
      | false => exact h.current _ hmem rfl
    · exact h.current operation (mem_filter.mp hother).1 hcurrent
    · exact h.distinct a (mem_filter.mp ha).1 b (mem_filter.mp hb).1 hsame
  · exact h

theorem Sound.put (h : Sound s) {request : ℕ} (hprompt : Prompt s (.put request)) :
    Sound (s.put request) := by
  unfold State.put
  cases himage : s.image request with
  | none => exact h
  | some key =>
    have hkey := hprompt key himage
    have hnone : s.returned = false := by
      cases hreturned : s.returned with
      | false => rfl
      | true => exact absurd ((hkey (h.returned hreturned)).1) (by rw [hreturned]; exact nofun)
    refine ⟨fun hreturned => ?_, fun operation hmem hcurrent found hfound => ?_, fun hreturned => ?_,
      h.current, h.distinct⟩
    · exact absurd (hnone.symm.trans hreturned) nofun
    · have hin := (hkey (h.current operation hmem hcurrent)).2 operation hmem hcurrent found hfound
      have hold := h.found operation hmem hcurrent found hfound
      show (if key ∈ s.files then s.files else s.files ++ [key]) ⊆ found
      split_ifs
      · exact hold
      · exact append_subset.mpr ⟨hold, cons_subset.mpr ⟨hin, nil_subset _⟩⟩
    · exact absurd (hnone.symm.trans hreturned) nofun

theorem lifecycle_logout {row row' : AccountData} {uuid : Uuid} (h : row.logout uuid = .ok row') :
    row'.lifecycle = .logoutPending := by
  cases hlifecycle : row.lifecycle
  all_goals simp [AccountData.logout, AccountData.writable, hlifecycle, throw, throwThe,
    MonadExceptOf.throw, bind, Except.bind, pure, Except.pure] at h
  all_goals rw [← h]
  exact hlifecycle

theorem lifecycle_remove {row : AccountData} (uuid : Uuid) (h : row.lifecycle ≠ .removed) :
    (row.remove uuid).lifecycle = .removing := by
  unfold AccountData.remove
  split_ifs with hgone
  · exact hgone.resolve_right h
  · rfl

/-- **Images that are prompt**, and removals that are not too late, leave nothing behind. -/
theorem sound_step (h : Sound s) {event : Event} (hprompt : Prompt s event) :
    Sound (step s event) := by
  cases event with
  | change change => exact h.changes _
  | logout operation uuid =>
    simp only [step]
    cases hlogout : s.row.logout uuid with
    | error _ => exact h
    | ok row =>
      refine (h.changes row).forgets ?_ operation
      rw [lifecycle_changes, lifecycle_logout hlogout]
      exact nofun
  | remove operation uuid =>
    simp only [step]
    by_cases hremoved : s.row.lifecycle = .removed
    · rw [if_pos hremoved]
      refine ⟨fun _ => hprompt hremoved, h.found, fun _ => ?_, h.current, h.distinct⟩
      rw [hremoved]
      exact nofun
    · rw [if_neg hremoved]
      refine (h.changes _).forgets ?_ operation
      rw [lifecycle_changes, lifecycle_remove uuid hremoved]
      exact nofun
  | list operation => exact h.list operation
  | unlink operation later => exact h.unlink operation later
  | media request =>
    simp only [step]
    split_ifs
    · exact h.of_files (List.Subset.refl _) rfl rfl rfl
    · exact h
  | render request key => exact h.of_files (List.Subset.refl _) rfl rfl rfl
  | put request => exact h.put hprompt
  | leave request => exact h.of_files (List.Subset.refl _) rfl rfl rfl
  | trim dropped => exact h.of_files (filter_subset_self _) rfl rfl rfl

theorem sound_start (row : AccountData) : Sound { row } := ⟨nofun, nofun, nofun, nofun, nofun⟩

/-- The image of an active account is rendered; the account is logged out and forgotten; then the image
is stored. -/
def overtaken : List Event :=
  [.media 0, .render 0 "k", .logout 0 1, .list 0, .unlink 0 [], .put 0]

end Api.Renditions
