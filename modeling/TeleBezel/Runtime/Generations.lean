import TeleBezel.Runtime.OneCommand
import Mathlib.Order.Nat
import Mathlib.Tactic.FinCases

/-!
# The stored generation never decreases

`persist_authorization_generation` never stores a generation below the one in the file. The commands
write the manifest that they made in an earlier critical section: a generation that the thread stores
in between is overwritten with an older one, and it is gone after a restart. The thread also takes a
generation for stored when there is no manifest, or a tombstone.
-/

open List

namespace Runtime

open Program Transition

def stored (s : World) : ℕ := s.manifest.elim 0 AccountManifest.authorizationGeneration

def Worker.jobs : Worker → List ℕ
  | .idle => []
  | .job generation | .stored generation _ | .retry generation => [generation]

def World.jobs (s : World) : List ℕ := s.queue ++ s.worker.jobs

def Point.unwritten : Point → Option AccountManifest
  | .holding manifest | .write manifest => some manifest
  | _ => none

/-- The generation in memory is the newest one, and what was reported is in the file. -/
structure GenerationsOrdered (s : World) : Prop where
  stored : s.known = true → stored s ≤ s.account.authorizationGeneration
  jobs : ∀ generation ∈ s.jobs, s.known = true ∧ generation ≤ s.account.authorizationGeneration
  clients : s.clients ≠ [] → s.known = true
  reported : ∀ generation ∈ s.reported, generation ≤ Runtime.stored s
  loaded : s.known = false → s.manifest = none ∨ s.manifestError ≠ none

def StoredGrows (s s' : World) : Prop :=
  ∀ manifest, s.manifest = some manifest → ∃ manifest', s'.manifest = some manifest' ∧
    manifest.authorizationGeneration ≤ manifest'.authorizationGeneration

def StoredBelow (point : Point) (s s' : World) : Prop :=
  s.account.authorizationGeneration ≤ s'.account.authorizationGeneration ∧
    ∀ manifest ∈ point.unwritten, stored s ≤ manifest.authorizationGeneration →
      stored s' ≤ manifest.authorizationGeneration

/-- The condition on what the thread does: there is a manifest, a tombstone is not older, and a
command has no older manifest at hand that it will write. -/
def StoresSafely (point : Option Point) (s : World) : EngineEvent → Prop
  | .persist reply => ∀ generation, s.worker = .job generation → (∀ code, reply ≠ .threw code) →
      ∃ manifest, s.manifest = some manifest ∧
        (manifest.tombstone = true → generation ≤ manifest.authorizationGeneration) ∧
        ∀ unwritten ∈ point.bind Point.unwritten,
          manifest.authorizationGeneration < generation →
            generation ≤ unwritten.authorizationGeneration
  | _ => True

theorem StoredGrows.refl (s : World) : StoredGrows s s :=
  fun manifest h => ⟨manifest, h, le_rfl⟩

theorem StoredGrows.trans {s s' s'' : World} (h : StoredGrows s s') (h' : StoredGrows s' s'') :
    StoredGrows s s'' := by
  intro manifest hmanifest
  obtain ⟨manifest', hmanifest', hle⟩ := h manifest hmanifest
  obtain ⟨manifest'', hmanifest'', hle'⟩ := h' manifest' hmanifest'
  exact ⟨manifest'', hmanifest'', hle.trans hle'⟩

theorem StoredGrows.of_eq {s s' : World} (h : s'.manifest = s.manifest) : StoredGrows s s' := by
  intro manifest hmanifest
  exact ⟨manifest, h.trans hmanifest, le_rfl⟩

def generations : Discipline where
  inv := GenerationsOrdered
  rel := StoredGrows
  others := StoredBelow
  permits := StoresSafely
  ends _ _ _ := True
  rel_refl := StoredGrows.refl
  rel_trans := StoredGrows.trans
  others_refl _ _ := ⟨le_rfl, fun _ _ => id⟩
  others_trans h h' :=
    ⟨h.1.trans h'.1, fun manifest hmanifest hle => h'.2 manifest hmanifest (h.2 manifest hmanifest hle)⟩
  ends_rel _ _ := trivial

section Beside

variable {s s' : World}

theorem GenerationsOrdered.of_manifest_eq (h : GenerationsOrdered s) (hknown : s'.known = s.known)
    (hmanifest : s'.manifest = s.manifest) (herror : s'.manifestError = s.manifestError)
    (hgeneration : s.account.authorizationGeneration ≤ s'.account.authorizationGeneration)
    (hjobs : ∀ generation ∈ s'.jobs, generation ∈ s.jobs ∨
      s.known = true ∧ generation ≤ s'.account.authorizationGeneration)
    (hreported : s'.reported = s.reported) (hclients : s'.clients ≠ [] → s.known = true) :
    GenerationsOrdered s' := by
  have hstored : Runtime.stored s' = Runtime.stored s := by rw [Runtime.stored, hmanifest]; rfl
  refine ⟨?_, ?_, ?_, ?_, ?_⟩
  · intro hknown'
    rw [hstored]
    exact (h.stored (hknown ▸ hknown')).trans hgeneration
  · intro generation hjob
    rw [hknown]
    rcases hjobs generation hjob with hold | hnew
    · exact ⟨(h.jobs generation hold).1, (h.jobs generation hold).2.trans hgeneration⟩
    · exact hnew
  · intro hne
    exact hknown.trans (hclients hne)
  · rw [hreported, hstored]
    exact h.reported
  · rw [hknown, hmanifest, herror]
    exact h.loaded

theorem handleAuthorization_generations (client : ClientId) (state : AuthorizationState) :
    let s' := handleAuthorization client state s
    s'.manifest = s.manifest ∧ s'.worker = s.worker ∧ s'.reported = s.reported ∧
      s.account.authorizationGeneration ≤ s'.account.authorizationGeneration ∧
      (∀ other ∈ s'.clients, other ∈ s.clients) ∧
      ∀ generation ∈ s'.queue, generation ∈ s.queue ∨
        s.clients ≠ [] ∧ generation ≤ s'.account.authorizationGeneration := by
  intro s'
  by_cases hclient : client ∈ s.clients
  · have hleave : ∀ s₁, s₁ = (if s.account.authorizationState = .ready ∧ state ≠ .ready then
        leaveSession state s else s) →
        s₁.manifest = s.manifest ∧ s₁.worker = s.worker ∧ s₁.reported = s.reported ∧
        s.account.authorizationGeneration ≤ s₁.account.authorizationGeneration ∧
        s₁.clients = s.clients ∧ ∀ generation ∈ s₁.queue, generation ∈ s.queue ∨
          s.clients ≠ [] ∧ generation ≤ s₁.account.authorizationGeneration := by
      rintro s₁ rfl
      split
      · unfold leaveSession
        split
        · exact ⟨rfl, rfl, rfl, le_rfl, rfl, fun _ h => Or.inl h⟩
        · refine ⟨rfl, rfl, rfl, ?_, rfl, fun generation h => ?_⟩
          · split
            · exact Nat.le_succ _
            · exact le_rfl
          · rcases mem_append.mp h with hold | hnew
            · exact Or.inl hold
            · rw [mem_singleton.mp hnew]
              exact Or.inr ⟨ne_nil_of_mem hclient, le_rfl⟩
      · exact ⟨rfl, rfl, rfl, le_rfl, rfl, fun _ h => Or.inl h⟩
    obtain ⟨hmanifest, hworker, hreported, hgeneration, hclients, hqueue⟩ := hleave _ rfl
    have hs' : s' = handleAuthorization client state s := rfl
    unfold handleAuthorization at hs'
    rw [if_neg (not_not.mpr hclient)] at hs'
    dsimp only at hs'
    rw [hs']
    split
    · refine ⟨hmanifest, hworker, hreported, hgeneration, fun other hother => ?_, hqueue⟩
      have hmem := mem_of_mem_filter hother
      exact hclients ▸ hmem
    · exact ⟨hmanifest, hworker, hreported, hgeneration, fun other hother => hclients ▸ hother,
        hqueue⟩
  · have hs' : s' = s := if_pos hclient
    rw [hs']
    exact ⟨rfl, rfl, rfl, le_rfl, fun _ h => h, fun _ h => Or.inl h⟩

variable {tag : Option Point}

theorem beside_of_manifest_eq (h : GenerationsOrdered s') (hmanifest : s'.manifest = s.manifest)
    (hgeneration : s.account.authorizationGeneration ≤ s'.account.authorizationGeneration) :
    GenerationsOrdered s' ∧ StoredGrows s s' ∧ ∀ point, tag = some point → StoredBelow point s s' := by
  refine ⟨h, StoredGrows.of_eq hmanifest, fun point _ => ⟨hgeneration, fun manifest _ hle => ?_⟩⟩
  rw [stored, hmanifest]
  exact hle

theorem generations_authorization (h : GenerationsOrdered s) (client : ClientId)
    (state : AuthorizationState) : GenerationsOrdered (handleAuthorization client state s) := by
  obtain ⟨hmanifest, hworker, hreported, hgeneration, hclients, hqueue⟩ :=
    handleAuthorization_generations (s := s) client state
  have hsame := same_handleAuthorization s client state
  refine h.of_manifest_eq hsame.known hmanifest hsame.manifestError hgeneration ?_ hreported ?_
  · intro generation hjob
    rw [World.jobs, hworker] at hjob
    rcases mem_append.mp hjob with hqueued | hworking
    · rcases hqueue generation hqueued with hold | ⟨hne, hle⟩
      · exact Or.inl (mem_append_left _ hold)
      · exact Or.inr ⟨h.clients hne, hle⟩
    · exact Or.inl (mem_append_right _ hworking)
  · intro hne
    obtain ⟨other, hother⟩ := exists_mem_of_ne_nil _ hne
    exact h.clients (ne_nil_of_mem (hclients other hother))

theorem GenerationsOrdered.of_jobs (h : GenerationsOrdered s) (hsame : Same s s')
    (hmanifest : s'.manifest = s.manifest)
    (hgeneration : s'.account.authorizationGeneration = s.account.authorizationGeneration)
    (hjobs : ∀ generation ∈ s'.jobs, generation ∈ s.jobs) (hreported : s'.reported = s.reported)
    (hclients : s'.clients = s.clients) : GenerationsOrdered s' := by
  refine h.of_manifest_eq hsame.known hmanifest hsame.manifestError hgeneration.ge ?_ hreported ?_
  · exact fun generation hjob => Or.inl (hjobs generation hjob)
  · rw [hclients]
    exact h.clients

theorem stored_persist (file : AccountManifest) (generation : ℕ) :
    ∃ file', persistAuthorizationGeneration (some file) generation = some file' ∧
      file.authorizationGeneration ≤ file'.authorizationGeneration ∧
      (file'.authorizationGeneration = file.authorizationGeneration ∨
        file.authorizationGeneration < generation ∧ file'.authorizationGeneration = generation) ∧
      ((file.tombstone = true → generation ≤ file.authorizationGeneration) →
        generation ≤ file'.authorizationGeneration) := by
  unfold persistAuthorizationGeneration
  rw [Option.map_some]
  refine ⟨_, rfl, ?_⟩
  split
  · rename_i hcase
    refine ⟨le_rfl, Or.inl rfl, fun htombstone => ?_⟩
    rcases hcase with hremoved | hle
    · exact htombstone hremoved
    · exact hle
  · rename_i hcase
    have hlt : file.authorizationGeneration < generation := not_le.mp fun hle => hcase (Or.inr hle)
    exact ⟨hlt.le, Or.inr ⟨hlt, rfl⟩, fun _ => le_rfl⟩

section

variable (h : GenerationsOrdered s)
include h

theorem generations_stored {generation : ℕ}
    (hworker : s.worker = .job generation) {file : AccountManifest} (hfile : s.manifest = some file)
    (htombstone : file.tombstone = true → generation ≤ file.authorizationGeneration)
    (hunwritten : ∀ unwritten ∈ tag.bind Point.unwritten, file.authorizationGeneration < generation →
      generation ≤ unwritten.authorizationGeneration) (failed : Bool) (reported : List ℕ)
    (hreported : ∀ other ∈ reported, other = generation ∨ other ∈ s.reported) :
    let s' := { s with
      manifest := persistAuthorizationGeneration s.manifest generation
      worker := .stored generation failed
      reported := reported }
    GenerationsOrdered s' ∧ StoredGrows s s' ∧
      ∀ point, tag = some point → StoredBelow point s s' := by
  intro s'
  obtain ⟨file', hfile', hge, heq, hcovers⟩ := stored_persist file generation
  have hmanifest : s'.manifest = some file' := by
    rw [← hfile', ← hfile]
  have hstored : Runtime.stored s = file.authorizationGeneration := by rw [Runtime.stored, hfile]; rfl
  have hstored' : Runtime.stored s' = file'.authorizationGeneration := by
    rw [Runtime.stored, hmanifest]
    rfl
  have hjob : generation ∈ s.jobs := by
    rw [World.jobs, hworker]
    exact mem_append_right _ (mem_singleton_self _)
  obtain ⟨hknown, hnewest⟩ := h.jobs generation hjob
  refine ⟨⟨?_, ?_, h.clients, ?_, ?_⟩, ?_, ?_⟩
  · intro _
    rw [hstored']
    rcases heq with hsame | ⟨-, hnew⟩
    · rw [hsame, ← hstored]
      exact h.stored hknown
    · rw [hnew]
      exact hnewest
  · intro other hother
    refine h.jobs other ?_
    rw [World.jobs, hworker]
    exact hother
  · intro other hother
    rw [hstored']
    rcases hreported other hother with rfl | hold
    · exact hcovers htombstone
    · exact ((h.reported other hold).trans_eq hstored).trans hge
  · exact fun hunknown => absurd hknown (by rw [show s.known = false from hunknown]; decide)
  · intro manifest hm
    obtain rfl : file = manifest := Option.some.inj (hfile.symm.trans hm)
    exact ⟨file', hmanifest, hge⟩
  · rintro point rfl
    refine ⟨le_rfl, fun unwritten hmem hle => ?_⟩
    rw [hstored']
    rw [hstored] at hle
    rcases heq with hsame | ⟨hlt, hnew⟩
    · exact hsame.trans_le hle
    · exact hnew.trans_le (hunwritten unwritten hmem hlt)

theorem generations_persist (reply : Reply) (hsafe : StoresSafely tag s (.persist reply)) :
    GenerationsOrdered (persistJob reply s) ∧ StoredGrows s (persistJob reply s) ∧
      ∀ point, tag = some point → StoredBelow point s (persistJob reply s) := by
  cases hworker : s.worker with
  | job generation =>
    by_cases hthrew : ∃ code, reply = .threw code
    · obtain ⟨code, rfl⟩ := hthrew
      have hs' : persistJob (.threw code) s = { s with worker := .stored generation true } := by
        unfold persistJob
        rw [hworker]
      rw [hs']
      refine beside_of_manifest_eq (h.of_jobs rfl rfl rfl ?_ rfl rfl) rfl le_rfl
      intro other hother
      rw [World.jobs, hworker]
      exact hother
    · have hstores : ∀ code, reply ≠ .threw code := fun code heq => hthrew ⟨code, heq⟩
      obtain ⟨file, hfile, htombstone, hunwritten⟩ := hsafe generation hworker hstores
      have hs' : ∃ failed reported, persistJob reply s =
          { s with
            manifest := persistAuthorizationGeneration s.manifest generation
            worker := .stored generation failed
            reported := reported } ∧
          ∀ other ∈ reported, other = generation ∨ other ∈ s.reported := by
        unfold persistJob
        rw [hworker]
        cases reply with
        | threw code => exact absurd rfl (hstores code)
        | torn => exact ⟨true, s.reported, rfl, fun _ h => Or.inr h⟩
        | _ => exact ⟨false, generation :: s.reported, rfl, fun _ h => mem_cons.mp h⟩
      obtain ⟨failed, reported, hs', hreported⟩ := hs'
      rw [hs']
      exact generations_stored h hworker hfile htombstone hunwritten failed reported hreported
  | _ =>
    have hs' : persistJob reply s = s := by
      unfold persistJob
      rw [hworker]
    rw [hs']
    exact beside_of_manifest_eq h rfl le_rfl

theorem generations_pop : GenerationsOrdered (pop s) := by
  unfold pop
  split
  · rename_i generation queue hworker hqueue
    refine h.of_jobs rfl rfl rfl (fun other hother => ?_) rfl rfl
    rw [World.jobs, hqueue]
    rcases mem_append.mp hother with hqueued | hworking
    · exact mem_append_left _ (mem_cons_of_mem _ hqueued)
    · rw [mem_singleton.mp hworking]
      exact mem_append_left _ mem_cons_self
  · exact h

theorem generations_settle : GenerationsOrdered (settle s) := by
  unfold settle
  split
  · rename_i generation failed hworker
    have hjobs : ∀ other ∈ s.queue ++ [generation], other ∈ s.jobs := by
      intro other hother
      rw [World.jobs, hworker]
      exact hother
    split
    · refine h.of_jobs rfl rfl rfl (fun other hother => hjobs other ?_) rfl rfl
      exact mem_append_left _ (by simpa [World.jobs, Worker.jobs] using hother)
    split
    · exact h.of_jobs rfl rfl rfl hjobs rfl rfl
    · refine h.of_jobs rfl rfl rfl (fun other hother => hjobs other ?_) rfl rfl
      exact mem_append_left _ (by simpa [World.jobs, Worker.jobs] using hother)
  · exact h

theorem generations_requeue : GenerationsOrdered (requeue s) := by
  unfold requeue
  split
  · rename_i generation hworker
    refine h.of_jobs rfl rfl rfl (fun other hother => ?_) rfl rfl
    rw [World.jobs, hworker]
    simpa [World.jobs, Worker.jobs] using hother
  · exact h

theorem generations_stall (client : ClientId) :
    GenerationsOrdered (stall client s) := by
  refine h.of_jobs (same_stall s client) rfl ?_ (fun _ => id) rfl rfl
  unfold stall
  split <;> rfl

theorem generations_stop : GenerationsOrdered (stop s) := by
  unfold stop
  split
  · exact h.of_jobs rfl rfl rfl (fun _ => id) rfl rfl
  · exact h

end

theorem generations_beside (event : EngineEvent) (h : GenerationsOrdered s)
    (hsafe : StoresSafely tag s event) :
    GenerationsOrdered (event.effect s) ∧ StoredGrows s (event.effect s) ∧
      ∀ point, tag = some point → StoredBelow point s (event.effect s) := by
  cases event with
  | authorization client state =>
    change GenerationsOrdered (if state = .closed then s else handleAuthorization client state s) ∧
      StoredGrows s (if state = .closed then s else handleAuthorization client state s) ∧
      ∀ point, tag = some point → StoredBelow point s
        (if state = .closed then s else handleAuthorization client state s)
    split
    · exact beside_of_manifest_eq h rfl le_rfl
    · obtain ⟨hmanifest, -, -, hgeneration, -⟩ :=
        handleAuthorization_generations (s := s) client state
      exact beside_of_manifest_eq (generations_authorization h client state) hmanifest hgeneration
  | closed client cause =>
    obtain ⟨hmanifest, -, -, hgeneration, -⟩ :=
      handleAuthorization_generations (s := s) client .closed
    refine beside_of_manifest_eq ?_ hmanifest hgeneration
    exact (generations_authorization h client .closed).of_jobs rfl rfl rfl
      (fun _ => id) rfl rfl
  | stalled client =>
    refine beside_of_manifest_eq (generations_stall h client) rfl ?_
    change _ ≤ (stall client s).account.authorizationGeneration
    unfold stall
    split <;> exact le_rfl
  | stop =>
    refine beside_of_manifest_eq (generations_stop h) ?_ ?_
    · change (stop s).manifest = s.manifest
      unfold stop
      split <;> rfl
    · change _ ≤ (stop s).account.authorizationGeneration
      unfold stop
      split <;> exact le_rfl
  | pop =>
    refine beside_of_manifest_eq (generations_pop h) ?_ ?_
    · change (pop s).manifest = s.manifest
      unfold pop
      split <;> rfl
    · change _ ≤ (pop s).account.authorizationGeneration
      unfold pop
      split <;> exact le_rfl
  | persist reply => exact generations_persist h reply hsafe
  | settle =>
    have hs' : (settle s).manifest = s.manifest ∧
        (settle s).account.authorizationGeneration = s.account.authorizationGeneration := by
      unfold settle
      split
      · split
        · exact ⟨rfl, rfl⟩
        split
        · exact ⟨rfl, rfl⟩
        · exact ⟨rfl, rfl⟩
      · exact ⟨rfl, rfl⟩
    exact beside_of_manifest_eq (generations_settle h) hs'.1 hs'.2.ge
  | requeue =>
    refine beside_of_manifest_eq (generations_requeue h) ?_ ?_
    · change (requeue s).manifest = s.manifest
      unfold requeue
      split <;> rfl
    · change _ ≤ (requeue s).account.authorizationGeneration
      unfold requeue
      split <;> exact le_rfl
  | call command | advance index reply | restart readable =>
    exact beside_of_manifest_eq h rfl le_rfl

theorem generations_restart (h : GenerationsOrdered s) (readable : Bool) :
    GenerationsOrdered (s.restart readable) := by
  refine ⟨?_, nofun, nofun, h.reported, ?_⟩
  · intro hknown
    unfold World.restart at hknown ⊢
    cases hmanifest : s.manifest with
    | none =>
      rw [hmanifest] at hknown
      exact absurd hknown (by simp)
    | some manifest =>
      rw [hmanifest] at hknown
      obtain rfl : readable = true := by simpa using hknown
      exact le_rfl
  · intro hunknown
    unfold World.restart at hunknown ⊢
    cases hmanifest : s.manifest with
    | none => exact Or.inl rfl
    | some manifest =>
      rw [hmanifest] at hunknown
      obtain rfl : readable = false := by simpa using hunknown
      exact Or.inr (by simp)

end Beside

section Commands

variable {config : Config} {s s' : World} {α : Type}

def Writable (manifest : AccountManifest) (s : World) : Prop :=
  stored s ≤ manifest.authorizationGeneration ∧
    manifest.authorizationGeneration ≤ s.account.authorizationGeneration

variable {manifest : AccountManifest}

theorem Writable.rely {point : Point} (h : Writable manifest s)
    (hpoint : point.unwritten = some manifest) (hrely : generations.contract.rely point s s') :
    Writable manifest s' := by
  obtain ⟨-, -, -, hgeneration, hunwritten⟩ := hrely
  exact ⟨hunwritten manifest hpoint h.1, h.2.trans hgeneration⟩

theorem Underway.account (h : Underway generations s) (account : AccountState)
    (hgeneration : account.authorizationGeneration = s.account.authorizationGeneration) :
    generations.inv { s with account } ∧ generations.rel s { s with account } := by
  refine ⟨?_, StoredGrows.of_eq rfl⟩
  exact h.inv.of_manifest_eq rfl rfl rfl hgeneration.ge (fun _ => Or.inl) rfl fun _ => h.known

theorem GenerationsOrdered.calm (h : GenerationsOrdered s) (hcalm : Calm s s')
    (hknown : s.known = true) : GenerationsOrdered s' := by
  refine h.of_manifest_eq hcalm.same.known hcalm.manifest hcalm.same.manifestError
    hcalm.generation.ge ?_ hcalm.reported fun _ => hknown
  intro generation hjob
  rw [World.jobs, hcalm.queue, hcalm.worker] at hjob
  exact Or.inl hjob

theorem meets_calm {part : Cmd α} (hpart : part.Every Calm) (h : Underway generations s) :
    generations.Keeps (Underway generations)
      part s := by
  refine (meets_every hpart (fun _ => True) h trivial (fun _ _ _ _ => id) ?_).mono
    (fun _ _ h => h.1) fun _ _ h => h.1
  intro s s' h _ hcalm
  exact ⟨⟨h.inv.calm hcalm h.known, hcalm.same.busy.trans h.busy, hcalm.same.known.trans h.known⟩,
    StoredGrows.of_eq hcalm.manifest, trivial⟩

theorem meets_write (h : Underway generations s) (hwritable : Writable manifest s) :
    Meets generations.contract (fun _ s => Underway generations s ∧ Writable manifest s)
      (fun _ => Underway generations) (write manifest) s := by
  refine ⟨⟨h.busy, h.known⟩, fun s' hrely reply _ => ?_⟩
  have h' := h.rely hrely
  obtain ⟨hbelow, hnewest⟩ := hwritable.rely rfl hrely
  -- the generation in the file is not older than the one before
  have hwritten : Underway generations { s' with manifest := some manifest } ∧
      Writable manifest { s' with manifest := some manifest } ∧
      StoredGrows s' { s' with manifest := some manifest } := by
    refine ⟨⟨⟨fun _ => hnewest, h'.inv.jobs, h'.inv.clients, ?_, ?_⟩, h'.busy, h'.known⟩,
      ⟨le_rfl, hnewest⟩, ?_⟩
    · exact fun generation hmem => (h'.inv.reported generation hmem).trans hbelow
    · intro hunknown
      exact absurd h'.known (by rw [show s'.known = false from hunknown]; decide)
    · intro old hold
      refine ⟨manifest, rfl, le_trans (le_of_eq ?_) hbelow⟩
      rw [stored, hold]
      rfl
  cases reply with
  | threw code => exact ⟨⟨h'.inv, StoredGrows.refl s'⟩, h'⟩
  | torn => exact ⟨⟨hwritten.1.inv, hwritten.2.2⟩, hwritten.1⟩
  | _ => exact ⟨⟨hwritten.1.inv, hwritten.2.2⟩, hwritten.1, hwritten.2.1⟩

theorem writable_of_generation (h : Underway generations s)
    (hgeneration : manifest.authorizationGeneration = s.account.authorizationGeneration) :
    Writable manifest s :=
  ⟨(h.inv.stored h.known).trans hgeneration.ge, hgeneration.le⟩

theorem meets_persist (h : Underway generations s) (phase : Phase) (lifecycle : Lifecycle)
    (operation : Option Uuid) :
    generations.Keeps (Underway generations)
      (persist config phase lifecycle operation) s := by
  refine meets_bind.mpr ⟨⟨h.busy, h.known⟩, fun s' hrely _ _ => ?_⟩
  have h' := h.rely hrely
  obtain ⟨hinv, hrel⟩ := h'.account { s'.account with operationPhase := phase } rfl
  have hunderway : Underway generations
      { s' with account := { s'.account with operationPhase := phase } } :=
    ⟨hinv, h'.busy, h'.known⟩
  refine ⟨⟨hinv, hrel⟩, ?_⟩
  exact (meets_write hunderway (writable_of_generation hunderway rfl)).mono
    (fun _ _ h => h.1) fun _ _ h => h

def CalmButLogouts (s s' : World) : Prop := Calm s { s' with logouts := s.logouts }

theorem CalmButLogouts.of_calm (h : Calm s s') : CalmButLogouts s s' :=
  ⟨h.same, h.generation, h.manifest,
    h.queue, h.worker, rfl, h.reported, h.closed⟩

theorem CalmButLogouts.of_logouts (s : World) (logouts : List LogoutEvent) :
    CalmButLogouts s { s with logouts } :=
  ⟨rfl, rfl, rfl, rfl, rfl, rfl, rfl, id⟩

theorem meets_request (h : Underway generations s) (client : ClientId)
    (function : ClientFunction) :
    generations.Keeps (Underway generations)
      (request client function) s := by
  have hevery : (request client function).Every CalmButLogouts :=
    every_request (fun s => .of_calm (Calm.refl s)) (fun s sent => .of_calm (calm_transmitted s sent))
      (fun s => .of_logouts s _) client function
  refine (meets_every hevery (fun _ => True) h trivial (fun _ _ _ _ => id) ?_).mono
    (fun _ _ h => h.1) fun _ _ h => h.1
  intro s s' h _ hcalm
  have hordered := h.inv.calm hcalm h.known
  refine ⟨⟨⟨hordered.stored, hordered.jobs, hordered.clients, hordered.reported, hordered.loaded⟩,
    hcalm.same.busy.trans h.busy, hcalm.same.known.trans h.known⟩, ?_, trivial⟩
  exact StoredGrows.of_eq hcalm.manifest

theorem generations_madeUp (h : GenerationsOrdered s) (c : AccountCommand)
    (hunknown : s.known = false) (herror : s.manifestError = none) :
    generations.inv (s.madeUp config c) ∧ generations.rel s (s.madeUp config c) := by
  have hmanifest : s.manifest = none :=
    (h.loaded hunknown).resolve_right fun hne => hne herror
  refine ⟨⟨?_, ?_, fun _ => rfl, h.reported, fun h => absurd h (by simp [World.madeUp])⟩,
    StoredGrows.of_eq rfl⟩
  · intro _
    have hnone : stored (s.madeUp config c) = 0 := by
      simp [stored, World.madeUp, hmanifest]
    rw [hnone]
    exact Nat.zero_le _
  · intro generation hjob
    have hknown := (h.jobs generation hjob).1
    rw [hunknown] at hknown
    exact absurd hknown (by decide)

theorem Taken.underway {c : AccountCommand} {account : AccountState}
    (htaken : Taken c s account manifest) (h : GenerationsOrdered s) (hknown : s.known = true)
    (hcheck : checkAccount config s.account c = .ok ()) :
    Underway generations { s with account } ∧ Writable manifest { s with account } := by
  have hle : s.account.authorizationGeneration ≤ account.authorizationGeneration := by
    rw [htaken.generation]
    exact le_of_checkAccount hcheck
  have hunderway : Underway generations { s with account } :=
    ⟨h.of_manifest_eq rfl rfl rfl hle (fun _ => Or.inl) rfl h.clients, htaken.busy, hknown⟩
  exact ⟨hunderway, writable_of_generation hunderway htaken.written⟩

theorem generations_tends (fingerprint : Fingerprint) :
    Tends generations fingerprint (Underway generations) Writable where
  underway h := h
  rely h hrely := h.rely hrely
  held hwritable hrely := hwritable.rely rfl hrely
  tame h htame := by
    obtain ⟨_, _, _, rfl⟩ := htame
    exact ⟨StoredGrows.of_eq rfl,
      h.inv.of_manifest_eq rfl rfl rfl le_rfl (fun _ => Or.inl) rfl fun _ => h.known, h.busy, h.known⟩
  kept hwritable htame := by
    obtain ⟨_, _, _, rfl⟩ := htame
    exact hwritable
  write h hwritable := meets_write h hwritable
  writable h hgeneration _ := writable_of_generation h hgeneration
  freed h hfreed := h.account _ hfreed.generation

theorem generations_takes (c : AccountCommand) :
    Takes config generations c (Underway generations) Writable where
  toTends := generations_tends _
  madeUp h := generations_madeUp h c
  taken h hknown hcheck htaken := ⟨StoredGrows.of_eq rfl, htaken.underway h hknown hcheck⟩
  activate h := meets_calm (calm_activate config) h
  applyProxy h := meets_calm (calm_applyProxy config) h

theorem generations_loggingOut {c : AccountCommand} {newOperation : Bool} {account : AccountState}
    (h : GenerationsOrdered s) (hknown : s.known = true)
    (hcheck : checkAccount config s.account c = .ok ())
    (htaken : TakenLogout c s newOperation account) :
    Underway generations (s.loggingOut c newOperation account) := by
  have hle : s.account.authorizationGeneration ≤ account.authorizationGeneration := by
    rw [htaken.generation]
    exact le_of_checkAccount hcheck
  exact ⟨h.of_manifest_eq rfl rfl rfl hle (fun _ => Or.inl) rfl h.clients, htaken.busy, hknown⟩

theorem generations_beginAuthorization {c : AccountCommand} (h : GenerationsOrdered s)
    (hle : s.account.authorizationGeneration ≤
      c.authorizationGeneration.getD s.account.authorizationGeneration) :
    GenerationsOrdered (beginAuthorization c s).2 ∧ StoredGrows s (beginAuthorization c s).2 := by
  unfold beginAuthorization
  dsimp only
  split_ifs
  · exact ⟨h, StoredGrows.refl s⟩
  · exact ⟨h, StoredGrows.refl s⟩
  · exact ⟨h.of_manifest_eq rfl rfl rfl hle (fun _ => Or.inl) rfl h.clients, StoredGrows.of_eq rfl⟩

end Commands

theorem generations_kept (config : Config) : Kept config generations where
  beside event h hsafe := generations_beside event h hsafe
  restart readable h := ⟨generations_restart h readable, StoredGrows.of_eq rfl⟩
  refusal _ _ := trivial
  begins command s hinv hfree _ := by
    have hends : ∀ command result s, generations.ends command result s := fun _ _ _ => trivial
    cases command with
    | reconcile c =>
      exact (generations_takes c).reconcile hinv hfree (hends _)
        fun h => meets_calm (calm_closeAccount false) h
    | logout c =>
      exact (generations_tends _).logout hinv hfree (hends _) (fun h => generations_madeUp h c)
        (fun h hknown hcheck htaken =>
          ⟨StoredGrows.of_eq rfl, generations_loggingOut h hknown hcheck htaken⟩)
        (fun h => meets_calm (calm_activate config) h) (fun phase lifecycle operation h =>
          meets_persist h phase lifecycle operation) fun client function h =>
          meets_request h client function
    | updateProxy c => exact (generations_takes c).updateProxy hinv hfree (hends _)
    | remove c =>
      exact (generations_takes c).remove hinv hfree (hends _) (generations_tends _)
        (fun h => meets_calm (calm_closeAccount true) h) fun h => h.account _ rfl
    | authorization c valid =>
      exact begins_signIn hinv hfree (hends _) (fun h => generations_madeUp h c)
        (fun h _ hle => generations_beginAuthorization h hle)
        (fun client h => meets_request h client .authorize) fun h => h.account _ rfl

section Runs

variable {config : Config}

theorem generations_init : Owned generations {} where
  inv :=
    ⟨fun hknown => absurd hknown Bool.false_ne_true, fun _ hjob => absurd hjob not_mem_nil,
      fun hne => absurd rfl hne, fun _ hreported => absurd hreported not_mem_nil,
      fun _ => Or.inl rfl⟩
  running := Or.inl ⟨rfl, rfl⟩
  returned _ hentry := absurd hentry not_mem_nil

theorem stored_le_restart (s : World) :
    stored s ≤ (s.restart true).account.authorizationGeneration := by
  unfold stored World.restart
  cases s.manifest with
  | none => exact Nat.zero_le _
  | some manifest => exact le_rfl

/-- **The stored generation never decreases** in a run where the thread only stores generations as the
condition says, and a restart at any time finds every generation that was reported as stored. -/
theorem generation_of_run {events events' : List EngineEvent} {s s' : Engine}
    (hrun : Run (Within generations.Permitted fun s e s' => s.step config e = s') {} events s)
    (hrun' : Run (Within generations.Permitted fun s e s' => s.step config e = s') s events' s') :
    (∀ manifest, s.world.manifest = some manifest →
      ∃ manifest', s'.world.manifest = some manifest' ∧
        manifest.authorizationGeneration ≤ manifest'.authorizationGeneration) ∧
      ∀ generation ∈ s'.world.reported,
        generation ≤ (s'.step config (.restart true)).world.account.authorizationGeneration ∧
          (s'.world.known = true → generation ≤ s'.world.account.authorizationGeneration) := by
  have howned := (owned_of_run (generations_kept config) hrun generations_init).1
  obtain ⟨howned', hgrows⟩ := owned_of_run (generations_kept config) hrun' howned
  refine ⟨hgrows, fun generation hreported => ?_⟩
  have hstored := howned'.inv.reported generation hreported
  constructor
  · exact hstored.trans (stored_le_restart s'.world)
  · intro hknown
    exact hstored.trans (howned'.inv.stored hknown)

theorem permitted_persist {s : Engine} {reply : Reply} (hnone : s.running = [])
    (hsome : s.world.manifest.isSome = true)
    (hlive : s.world.manifest.all (fun manifest => !manifest.tombstone) = true) :
    generations.Permitted s (.persist reply) := by
  intro generation _ _
  obtain ⟨manifest, heq⟩ := Option.isSome_iff_exists.mp hsome
  rw [heq, Option.all_some, Bool.not_eq_true'] at hlive
  refine ⟨manifest, heq, fun htombstone => ?_, ?_⟩
  · rw [hlive] at htombstone
    exact absurd htombstone Bool.false_ne_true
  · rw [hnone]
    exact fun unwritten hunwritten => absurd hunwritten (by simp)

/-- A `reconcile` on an account that is new, up to the manifest of its end. -/
def sampleReconcile : List EngineEvent :=
  .call (.reconcile { generation := 7, revision := 1 }) ::
    advances ([.done, .done, .done] ++ sampleActivation)

def sampleLeft : List EngineEvent :=
  sampleReconcile ++ [.authorization 1 .ready, .advance 0 .done,
    .authorization 1 .awaitingPhoneNumber, .pop]

def sampleStored : List EngineEvent := sampleLeft ++ [.advance 0 .done, .advance 0 .done]

theorem generation_of_run_stored :
    let s := sampleStored.foldl (Engine.step sampleConfig) {}
    let s' := s.step sampleConfig (.persist .done)
    s'.world.reported = [2] ∧ s'.world.known = true ∧
      2 ≤ (s'.step sampleConfig (.restart true)).world.account.authorizationGeneration := by
  intro s s'
  have hreported : s'.world.reported = [2] := by decide +kernel
  refine ⟨hreported, by decide +kernel, ?_⟩
  have hrun : Run (Within generations.Permitted fun s e s' => s.step sampleConfig e = s') {}
      sampleStored s := by
    refine run_within (Engine.step sampleConfig) {} fun e he s => ?_
    fin_cases he <;> exact trivial
  have hrun' : Run (Within generations.Permitted fun s e s' => s.step sampleConfig e = s') s
      [.persist .done] s' := by
    refine (Run.nil s).snoc ⟨?_, rfl⟩
    exact permitted_persist (List.length_eq_zero_iff.mp (by decide +kernel)) (by decide +kernel)
      (by decide +kernel)
  exact ((generation_of_run hrun hrun').2 2 (by rw [hreported]; exact List.mem_singleton_self 2)).1

/-- A generation that is stored while a command has its manifest at hand is overwritten, and lost. -/
theorem generation_overwritten :
    let s := (sampleLeft ++ [EngineEvent.persist .done]).foldl (Engine.step sampleConfig) {}
    let s' := s.step sampleConfig (.advance 0 .done)
    s.world.manifest.map AccountManifest.authorizationGeneration = some 2 ∧
      s'.world.manifest.map AccountManifest.authorizationGeneration = some 1 ∧
      s'.world.reported = [2] ∧
      (s'.step sampleConfig (.restart true)).world.account.authorizationGeneration = 1 := by
  decide +kernel

end Runs

end Runtime
