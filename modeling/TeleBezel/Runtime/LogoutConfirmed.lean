import TeleBezel.Runtime.OneCommand
import Mathlib.Data.List.Infix
import Mathlib.Tactic.FinCases

/-!
# A logout is complete when TDLib has executed it

`logout` takes a client that is closed in the phase `executing` for one that has logged out. The phase
is recorded before `logOut` is transmitted, and it outlives the process; the client also closes
because it could not be set up, or because it stalls.
-/

open List

namespace Runtime

open Program Transition

/-- TDLib accepted a `logOut` after the operation was recorded. -/
def Accepted (operation : Option Uuid) (log : List LogoutEvent) : Prop :=
  ∃ before after, log = before ++ .recorded operation :: after ∧ .accepted ∈ after

/-- The operation of a fingerprint, when it is the one of a `logout`. -/
def logoutOf (fingerprint : Option Fingerprint) : Option (Option Uuid) :=
  fingerprint.bind Fingerprint.logoutOperationId

structure ManifestConfirmed (log : List LogoutEvent) (manifest : AccountManifest) : Prop where
  recorded : ∀ operation, logoutOf manifest.contentHash = some operation →
    .recorded operation ∈ log ∧ manifest.tombstone = false
  confirmed : ∀ operation, logoutOf manifest.contentHash = some operation →
    manifest.operationPhase = .confirmed → Accepted operation log
  started : manifest.lifecycle = .logoutPending → manifest.contentHash ≠ none

structure LogoutsConfirmed (s : World) : Prop where
  recorded : ∀ operation, logoutOf s.account.revisionFingerprint = some operation →
    .recorded operation ∈ s.logouts
  closed : ∀ operation, logoutOf s.account.revisionFingerprint = some operation →
    s.account.operationPhase = .executing → s.account.closed = true → Accepted operation s.logouts
  confirmed : ∀ operation, logoutOf s.account.revisionFingerprint = some operation →
    s.account.operationPhase = .confirmed → Accepted operation s.logouts
  started : s.account.lifecycle = .logoutPending → s.account.revisionFingerprint ≠ none
  manifest : ∀ manifest ∈ s.manifest, ManifestConfirmed s.logouts manifest

/-- The condition on clients that close. A client that closes while a logout is `executing` was told to
log out, and the account has a client when a logout gets there. -/
def ClosesForLogout (point : Option Point) (s : World) : EngineEvent → Prop
  | .closed client cause => client ∈ s.clients → logoutOf s.account.revisionFingerprint ≠ none →
      s.account.operationPhase = .executing →
        cause = some .logOut ∧ (client, .logOut) ∈ s.transmitted
  | .advance _ _ => point = some (.record .executing) → s.account.closed = true →
      s.account.operationPhase = .executing
  | _ => True

def CompletedAccepted (command : Command) (result : Except ErrorCode Answer) (s : World) : Prop :=
  ∀ c revision, command = .logout c → result = .ok (.applied revision true) →
    Accepted c.logoutOperationId s.logouts

section Log

variable {operation : Option Uuid} {log log' : List LogoutEvent}

theorem Accepted.mono (h : Accepted operation log) (hlog : log <+: log') :
    Accepted operation log' := by
  obtain ⟨before, after, rfl, haccepted⟩ := h
  obtain ⟨more, rfl⟩ := hlog
  exact ⟨before, after ++ more, by simp, mem_append_left _ haccepted⟩

theorem Accepted.of_recorded (h : .recorded operation ∈ log) :
    Accepted operation (log ++ [.accepted]) := by
  obtain ⟨before, after, rfl⟩ := append_of_mem h
  exact ⟨before, after ++ [.accepted], by simp, mem_append_right _ (mem_singleton_self _)⟩

variable {manifest : AccountManifest}

theorem ManifestConfirmed.mono (h : ManifestConfirmed log manifest)
    (hlog : log <+: log') : ManifestConfirmed log' manifest where
  recorded operation hlogout :=
    ⟨hlog.subset (h.recorded operation hlogout).1, (h.recorded operation hlogout).2⟩
  confirmed operation hlogout hphase := (h.confirmed operation hlogout hphase).mono hlog
  started := h.started

theorem ManifestConfirmed.of_other {c : AccountCommand}
    (hhash : manifest.contentHash = some (c.fingerprint false)) : ManifestConfirmed log manifest where
  recorded operation hlogout := by
    rw [hhash] at hlogout
    exact absurd hlogout (by simp [logoutOf, AccountCommand.fingerprint])
  confirmed operation hlogout := by
    rw [hhash] at hlogout
    exact absurd hlogout (by simp [logoutOf, AccountCommand.fingerprint])
  started _ := by
    rw [hhash]
    exact Option.some_ne_none _

theorem ManifestConfirmed.of_decided {manifest' : AccountManifest}
    (h : ManifestConfirmed log manifest) (hdecided : manifest'.decided = manifest.decided) :
    ManifestConfirmed log manifest' := by
  simp only [AccountManifest.decided, AccountManifest.mk.injEq] at hdecided
  obtain ⟨-, -, -, hlifecycle, -, htombstone, -, hhash, hphase, -⟩ := hdecided
  refine ⟨?_, ?_, ?_⟩
  · rw [hhash, htombstone]
    exact h.recorded
  · rw [hhash, hphase]
    exact h.confirmed
  · rw [hhash, hlifecycle]
    exact h.started

end Log

def confirmations : Discipline where
  inv := LogoutsConfirmed
  rel s s' := s.logouts <+: s'.logouts
  others _ _ _ := True
  permits := ClosesForLogout
  ends := CompletedAccepted
  rel_refl s := prefix_refl s.logouts
  rel_trans h h' := h.trans h'
  others_refl _ _ := trivial
  others_trans _ _ := trivial
  ends_rel hlog h c revision hcommand hresult := (h c revision hcommand hresult).mono hlog

section Beside

variable {s s' : World}

theorem LogoutsConfirmed.of_same (h : LogoutsConfirmed s) (hsame : Same s s')
    (hlog : s.logouts <+: s'.logouts)
    (hclosed : ∀ operation, logoutOf s.account.revisionFingerprint = some operation →
      s.account.operationPhase = .executing → s'.account.closed = true →
        s.account.closed = true ∨ Accepted operation s'.logouts) : LogoutsConfirmed s' where
  recorded operation hlogout := by
    rw [hsame.revisionFingerprint] at hlogout
    exact hlog.subset (h.recorded operation hlogout)
  closed operation hlogout hphase hclosed' := by
    rw [hsame.revisionFingerprint] at hlogout
    rw [hsame.operationPhase] at hphase
    rcases hclosed operation hlogout hphase hclosed' with hold | haccepted
    · exact (h.closed operation hlogout hphase hold).mono hlog
    · exact haccepted
  confirmed operation hlogout hphase := by
    rw [hsame.revisionFingerprint] at hlogout
    rw [hsame.operationPhase] at hphase
    exact (h.confirmed operation hlogout hphase).mono hlog
  started hlifecycle := by
    rw [hsame.lifecycle] at hlifecycle
    rw [hsame.revisionFingerprint]
    exact h.started hlifecycle
  manifest manifest hmanifest := by
    have hfile := hsame.manifest
    rw [hmanifest, Option.map_some] at hfile
    obtain ⟨old, hold, hdecided⟩ := Option.map_eq_some_iff.mp hfile.symm
    exact ((h.manifest old hold).of_decided hdecided.symm).mono hlog

theorem LogoutsConfirmed.of_same_closed (h : LogoutsConfirmed s) (hsame : Same s s')
    (hlog : s'.logouts = s.logouts) (hclosed : s'.account.closed = s.account.closed) :
    LogoutsConfirmed s' := by
  refine h.of_same hsame (by rw [hlog]) fun _ _ _ hclosed' => Or.inl ?_
  rw [← hclosed]
  exact hclosed'

theorem handleAuthorization_closed (s : World) (client : ClientId) {state : AuthorizationState}
    (hstate : state ≠ .closed) :
    (handleAuthorization client state s).account.closed = s.account.closed ∧
      (handleAuthorization client state s).logouts = s.logouts := by
  unfold handleAuthorization
  split
  · exact ⟨rfl, rfl⟩
  split
  · unfold leaveSession
    split
    · exact ⟨rfl, rfl⟩
    · exact ⟨rfl, rfl⟩
  · exact ⟨rfl, rfl⟩

theorem confirmations_closed (h : LogoutsConfirmed s) {tag : Option Point} {client : ClientId}
    {cause : Option ClientFunction} (hcloses : ClosesForLogout tag s (.closed client cause)) :
    LogoutsConfirmed (handleClosed client cause s) ∧
      s.logouts <+: (handleClosed client cause s).logouts := by
  have hlogouts : (handleClosed client cause s).logouts =
      if client ∈ s.clients ∧ cause = some .logOut ∧ (client, .logOut) ∈ s.transmitted then
        s.logouts ++ [.accepted] else s.logouts := by
    have hkept : (handleAuthorization client .closed s).logouts = s.logouts := by
      unfold handleAuthorization
      split
      · rfl
      rw [if_pos rfl]
      split
      · unfold leaveSession
        simp [closeClient]
      · rfl
    unfold handleClosed
    dsimp only
    rw [hkept]
  have hlog : s.logouts <+: (handleClosed client cause s).logouts := by
    rw [hlogouts]
    split
    · exact prefix_append _ _
    · exact prefix_refl _
  refine ⟨h.of_same (same_handleClosed s client cause) hlog ?_, hlog⟩
  intro operation hlogout hphase hclosed
  by_cases hclient : client ∈ s.clients
  · -- the client was told to log out, after the operation was recorded
    obtain ⟨hcause, hsent⟩ := hcloses hclient (by rw [hlogout]; exact Option.some_ne_none _) hphase
    refine Or.inr ?_
    rw [hlogouts, if_pos ⟨hclient, hcause, hsent⟩]
    exact Accepted.of_recorded (h.recorded operation hlogout)
  · refine Or.inl ?_
    have hsame : (handleClosed client cause s).account = s.account := by
      have heq : handleAuthorization client .closed s = s := if_pos hclient
      unfold handleClosed
      rw [heq]
    rw [← hsame]
    exact hclosed

theorem confirmations_beside {tag : Option Point} (event : EngineEvent) (h : LogoutsConfirmed s)
    (hcloses : ClosesForLogout tag s event) :
    LogoutsConfirmed (event.effect s) ∧ s.logouts <+: (event.effect s).logouts := by
  have hkept : ∀ s', Same s s' → s'.logouts = s.logouts → s'.account.closed = s.account.closed →
      LogoutsConfirmed s' ∧ s.logouts <+: s'.logouts := by
    intro s' hsame hlog hclosed
    exact ⟨h.of_same_closed hsame hlog hclosed, by rw [hlog]⟩
  have hsame := same_effect event s
  cases event with
  | closed client cause => exact confirmations_closed h hcloses
  | authorization client state =>
    by_cases hstate : state = .closed
    · have heffect : (EngineEvent.authorization client state).effect s = s := if_pos hstate
      rw [heffect]
      exact hkept s (Same.refl s) rfl rfl
    · have heffect : (EngineEvent.authorization client state).effect s =
          handleAuthorization client state s := if_neg hstate
      rw [heffect]
      obtain ⟨hclosed, hlog⟩ := handleAuthorization_closed s client hstate
      exact hkept _ (same_handleAuthorization s client state) hlog hclosed
  | stalled client =>
    refine hkept _ hsame rfl ?_
    change (stall client s).account.closed = s.account.closed
    unfold stall
    split <;> rfl
  | stop =>
    refine hkept _ hsame ?_ ?_
    · change (stop s).logouts = s.logouts
      unfold stop
      split <;> rfl
    · change (stop s).account.closed = s.account.closed
      unfold stop
      split <;> rfl
  | pop =>
    refine hkept _ hsame ?_ ?_
    · change (pop s).logouts = s.logouts
      unfold pop
      split <;> rfl
    · change (pop s).account.closed = s.account.closed
      unfold pop
      split <;> rfl
  | persist reply =>
    have hs' : (persistJob reply s).logouts = s.logouts ∧
        (persistJob reply s).account.closed = s.account.closed := by
      unfold persistJob
      split
      · split <;> exact ⟨rfl, rfl⟩
      · exact ⟨rfl, rfl⟩
    exact hkept _ hsame hs'.1 hs'.2
  | settle =>
    have hs' : (settle s).logouts = s.logouts ∧
        (settle s).account.closed = s.account.closed := by
      unfold settle
      split
      · split
        · exact ⟨rfl, rfl⟩
        split <;> exact ⟨rfl, rfl⟩
      · exact ⟨rfl, rfl⟩
    exact hkept _ hsame hs'.1 hs'.2
  | requeue =>
    refine hkept _ hsame ?_ ?_
    · change (requeue s).logouts = s.logouts
      unfold requeue
      split <;> rfl
    · change (requeue s).account.closed = s.account.closed
      unfold requeue
      split <;> rfl
  | call command | advance index reply | restart readable => exact hkept s hsame rfl rfl

theorem LogoutsConfirmed.of_none (account : AccountState)
    (hmanifest : ∀ manifest ∈ s.manifest, ManifestConfirmed s.logouts manifest)
    (hfingerprint : logoutOf account.revisionFingerprint = none)
    (hstarted : account.lifecycle = .logoutPending → account.revisionFingerprint ≠ none)
    (haccount : s.account = account) : LogoutsConfirmed s := by
  subst haccount
  have hnone : ∀ operation, logoutOf s.account.revisionFingerprint ≠ some operation := by
    intro operation
    rw [hfingerprint]
    exact Option.some_ne_none operation |>.symm
  refine ⟨?_, ?_, ?_, hstarted, hmanifest⟩
  · exact fun operation hlogout => absurd hlogout (hnone operation)
  · exact fun operation hlogout => absurd hlogout (hnone operation)
  · exact fun operation hlogout => absurd hlogout (hnone operation)

theorem confirmations_restart (h : LogoutsConfirmed s) (readable : Bool) :
    LogoutsConfirmed (s.restart readable) := by
  have hempty : (s.restart readable).account = {} → LogoutsConfirmed (s.restart readable) :=
    fun haccount => .of_none {} h.manifest rfl (fun hlifecycle => absurd hlifecycle (by decide))
      haccount
  cases hmanifest : s.manifest with
  | none =>
    refine hempty ?_
    simp [World.restart, hmanifest]
  | some manifest =>
    cases readable with
    | false =>
      refine hempty ?_
      simp [World.restart, hmanifest]
    | true =>
      have haccount : (s.restart true).account = manifest.account := by
        simp [World.restart, hmanifest]
      have hfile := h.manifest manifest hmanifest
      refine ⟨?_, ?_, ?_, ?_, h.manifest⟩
      · rw [haccount]
        exact fun operation hlogout => (hfile.recorded operation hlogout).1
      · rw [haccount]
        -- no client is closed, unless the account is removed
        intro operation hlogout _ hclosed
        rw [show manifest.account.closed = manifest.tombstone from rfl,
          (hfile.recorded operation hlogout).2] at hclosed
        exact absurd hclosed Bool.false_ne_true
      · rw [haccount]
        exact hfile.confirmed
      · rw [haccount]
        exact hfile.started

end Beside

section Commands

variable {config : Config} {s s' : World} {α : Type} {c : AccountCommand}
variable {log : List LogoutEvent}

/-- A command is under way that took the account with a fingerprint, with what became of logouts up to
some time before. -/
structure TakenBy (taken : Fingerprint) (log : List LogoutEvent) (s : World) : Prop where
  underway : Underway confirmations s
  fingerprint : s.account.revisionFingerprint = some taken
  since : log <+: s.logouts

theorem TakenBy.rely {point : Point} (h : TakenBy taken log s)
    (hrely : confirmations.contract.rely point s s') : TakenBy taken log s' :=
  ⟨h.underway.rely hrely, hrely.2.2.1.revisionFingerprint.trans h.fingerprint,
    h.since.trans hrely.2.1⟩

theorem Underway.calm (h : Underway confirmations s) (hcalm : Calm s s') :
    Underway confirmations s' := by
  refine ⟨?_, hcalm.same.busy.trans h.busy, hcalm.same.known.trans h.known⟩
  refine h.inv.of_same hcalm.same (by rw [hcalm.logouts]) fun _ _ _ hclosed => Or.inl ?_
  exact hcalm.closed hclosed

theorem TakenBy.calm (h : TakenBy taken log s) (hcalm : Calm s s') : TakenBy taken log s' :=
  ⟨h.underway.calm hcalm, hcalm.same.revisionFingerprint.trans h.fingerprint,
    by rw [hcalm.logouts]; exact h.since⟩

theorem underway_calm {part : Cmd α} (hpart : part.Every Calm) (h : Underway confirmations s) :
    confirmations.Keeps (Underway confirmations) part s := by
  refine hpart.meets ?_ ?_ ?_ h
  · exact fun s h => ⟨h.busy, h.known⟩
  · exact fun point s s' hrely h => h.rely hrely
  · intro s s' h hcalm
    have h' := h.calm hcalm
    refine ⟨⟨h'.inv, ?_⟩, h'⟩
    change s.logouts <+: s'.logouts
    rw [hcalm.logouts]

theorem takenBy_calm {part : Cmd α} (hpart : part.Every Calm)
    (h : TakenBy taken log s) :
    confirmations.Keeps (TakenBy taken log)
      part s := by
  refine hpart.meets ?_ ?_ ?_ h
  · exact fun s h => ⟨h.underway.busy, h.underway.known⟩
  · exact fun point s s' hrely h => h.rely hrely
  · intro s s' h hcalm
    have h' := h.calm hcalm
    refine ⟨⟨h'.underway.inv, ?_⟩, h'⟩
    change s.logouts <+: s'.logouts
    rw [hcalm.logouts]

theorem takenBy_write {manifest : AccountManifest}
    (h : TakenBy taken log s) (hmanifest : ManifestConfirmed s.logouts manifest) :
    confirmations.Keeps (TakenBy taken log)
      (write manifest) s := by
  refine ⟨⟨h.underway.busy, h.underway.known⟩, fun s' hrely reply _ => ?_⟩
  have h' := h.rely hrely
  have hlog : s.logouts <+: s'.logouts := hrely.2.1
  have hwritten : TakenBy taken log { s' with manifest := some manifest } := by
    obtain ⟨⟨hinv, hbusy, hknown⟩, hfingerprint, hsince⟩ := h'
    refine ⟨⟨⟨hinv.recorded, hinv.closed, hinv.confirmed, hinv.started, ?_⟩, hbusy, hknown⟩,
      hfingerprint, hsince⟩
    intro written hwritten
    obtain rfl := Option.some.inj hwritten
    exact hmanifest.mono hlog
  cases reply with
  | threw code => exact ⟨⟨h'.underway.inv, prefix_refl _⟩, h'⟩
  | _ => exact ⟨⟨hwritten.underway.inv, prefix_refl _⟩, hwritten⟩

variable {post : α → World → Prop}

theorem takenBy_reading {f : World → α} {fails : ErrorCode → World → Prop} (h : TakenBy taken log s)
    (hpost : ∀ s', TakenBy taken log s' → post (f s') s') :
    Meets confirmations.contract post fails (critical fun s => (f s, s)) s := by
  refine meets_critical h.underway fun s' h' hrely => ?_
  exact ⟨h'.inv, prefix_refl _, hpost s' (h.rely hrely)⟩

theorem takenBy_request (h : TakenBy taken log s) (client : ClientId) (function : ClientFunction) :
    confirmations.Keeps (TakenBy taken log)
      (request client function) s := by
  have hevery : (request client function).Every fun s s' => Same s s' ∧
      s'.account.closed = s.account.closed ∧ s.logouts <+: s'.logouts := by
    refine every_request ?_ ?_ ?_ client function
    · exact fun s => ⟨Same.refl s, rfl, prefix_refl _⟩
    · exact fun s sent => ⟨rfl, rfl, prefix_refl _⟩
    · exact fun s => ⟨rfl, rfl, prefix_append _ _⟩
  refine hevery.meets ?_ ?_ ?_ h
  · exact fun s h => ⟨h.underway.busy, h.underway.known⟩
  · exact fun point s s' hrely h => h.rely hrely
  · rintro s s' ⟨⟨hinv, hbusy, hknown⟩, hfingerprint, hsince⟩ ⟨hsame, hclosed, hlog⟩
    have hinv' : LogoutsConfirmed s' := by
      refine hinv.of_same hsame hlog fun _ _ _ hclosed' => Or.inl ?_
      rw [← hclosed]
      exact hclosed'
    exact ⟨⟨hinv', hlog⟩, ⟨hinv', hsame.busy.trans hbusy, hsame.known.trans hknown⟩,
      hsame.revisionFingerprint.trans hfingerprint, hsince.trans hlog⟩

variable {command : Command}

theorem takenBy_giveUp (code : ErrorCode) (s : World) (h : TakenBy taken log s) :
    Meets confirmations.contract post
      (fun code s => s.account.busy = false ∧ CompletedAccepted command (.error code) s)
      (giveUp code : Cmd α) s := by
  refine meets_bind.mpr (meets_critical h.underway fun s' h' _ => ?_)
  obtain ⟨hrecorded, hclosed, hconfirmed, hstarted, hmanifest⟩ := h'.inv
  exact ⟨⟨hrecorded, hclosed, hconfirmed, hstarted, hmanifest⟩, prefix_refl _, rfl,
    fun _ _ _ hresult => absurd hresult (by simp)⟩

section Others

theorem LogoutsConfirmed.other (account : AccountState) (h : LogoutsConfirmed s)
    (hfingerprint : account.revisionFingerprint = some (c.fingerprint false)) :
    LogoutsConfirmed { s with account } := by
  refine .of_none account h.manifest ?_ ?_ rfl
  · rw [hfingerprint]
    rfl
  · rw [hfingerprint]
    exact fun _ => Option.some_ne_none _

theorem Taken.takenBy {account : AccountState} {manifest : AccountManifest}
    (htaken : Taken c s account manifest) (h : LogoutsConfirmed s) (hknown : s.known = true) :
    TakenBy (c.fingerprint false) [] { s with account } :=
  ⟨⟨h.other account htaken.fingerprint, htaken.busy, hknown⟩, htaken.fingerprint, nil_prefix⟩

theorem confirmations_madeUp (h : LogoutsConfirmed s) (c : AccountCommand) :
    confirmations.inv (s.madeUp config c) ∧ confirmations.rel s (s.madeUp config c) :=
  ⟨.of_none _ h.manifest rfl (fun hlifecycle => absurd hlifecycle (by simp [World.madeUp])) rfl,
    prefix_refl _⟩

theorem confirmations_takes (c : AccountCommand) :
    Takes config confirmations c (TakenBy (c.fingerprint false) []) fun manifest _ =>
      manifest.contentHash = some (c.fingerprint false) where
  underway h := h.underway
  rely h hrely := h.rely hrely
  held hhash _ := hhash
  tame {s _} h htame := by
    obtain ⟨_, _, operationPhase, rfl⟩ := htame
    obtain ⟨hrecorded, hclosed, hconfirmed, hstarted, hmanifest⟩ :=
      h.underway.inv.other { s.account with operationPhase } h.fingerprint
    exact ⟨prefix_refl _, ⟨⟨hrecorded, hclosed, hconfirmed, hstarted, hmanifest⟩, h.underway.busy,
      h.underway.known⟩, h.fingerprint, nil_prefix⟩
  kept hhash _ := hhash
  write h hhash := (takenBy_write h (.of_other hhash)).mono (fun _ _ h => ⟨h, hhash⟩) fun _ _ h => h
  writable h _ hhash := hhash.elim (fun hhash => hhash.trans h.fingerprint) id
  freed h hfreed :=
    ⟨h.underway.inv.other _ (hfreed.fingerprint.trans h.fingerprint), prefix_refl _⟩
  madeUp h _ _ := confirmations_madeUp h c
  taken h hknown _ htaken := ⟨prefix_refl _, htaken.takenBy h hknown, htaken.contentHash⟩
  activate h := takenBy_calm (calm_activate config) h
  applyProxy h := takenBy_calm (calm_applyProxy config) h

end Others

section Logout

theorem TakenLogout.takenBy {account : AccountState} {newOperation : Bool}
    (htaken : TakenLogout c s newOperation account) (h : LogoutsConfirmed s)
    (hknown : s.known = true) :
    TakenBy (c.fingerprint true) s.logouts (s.loggingOut c newOperation account) := by
  unfold World.loggingOut
  have hlogout : ∀ operation, logoutOf account.revisionFingerprint = some operation →
      operation = c.logoutOperationId := by
    intro operation hoperation
    rw [htaken.fingerprint] at hoperation
    exact (Option.some.inj hoperation).symm
  have hstarted : account.lifecycle = .logoutPending → account.revisionFingerprint ≠ none := by
    rw [htaken.fingerprint]
    exact fun _ => Option.some_ne_none _
  cases newOperation with
  | true =>
    have hphase := htaken.recorded rfl
    have hsince : s.logouts <+: s.logouts ++ [.recorded c.logoutOperationId] :=
      prefix_append _ _
    refine ⟨⟨⟨?_, ?_, ?_, hstarted, ?_⟩, htaken.busy, hknown⟩, htaken.fingerprint, hsince⟩
    · intro operation hoperation
      rw [hlogout operation hoperation]
      exact mem_append_right _ (mem_singleton_self _)
    · exact fun _ _ hexecuting => absurd (hphase.symm.trans hexecuting) (by simp)
    · exact fun _ _ hconfirmed => absurd (hphase.symm.trans hconfirmed) (by simp)
    · exact fun manifest hmanifest => (h.manifest manifest hmanifest).mono hsince
  | false =>
    -- the operation is resumed, as it was recorded
    obtain ⟨hpending, -, hfingerprint, hphase⟩ := htaken.resumed rfl
    have hsame : s.account.revisionFingerprint = account.revisionFingerprint := by
      rw [htaken.fingerprint]
      exact hfingerprint.resolve_left (h.started hpending)
    refine ⟨⟨⟨?_, ?_, ?_, hstarted, h.manifest⟩, htaken.busy, hknown⟩, htaken.fingerprint,
      prefix_refl _⟩
    · rw [← hsame]
      exact h.recorded
    · intro operation hoperation hexecuting hclosed
      rw [← hsame] at hoperation
      rw [htaken.closed] at hclosed
      rcases hphase with hold | hintent
      · exact h.closed operation hoperation (hold.symm.trans hexecuting) hclosed
      · exact absurd (hintent.symm.trans hexecuting) (by simp)
    · intro operation hoperation hconfirmed
      rw [← hsame] at hoperation
      rcases hphase with hold | hintent
      · exact h.confirmed operation hoperation (hold.symm.trans hconfirmed)
      · exact absurd (hintent.symm.trans hconfirmed) (by simp)

section

variable (h : TakenBy (c.fingerprint true) log s)
include h

theorem takenBy_persist (phase : Phase)
    (lifecycle : Lifecycle) (operation : Option Uuid)
    (hconfirmed : phase = .confirmed → Accepted c.logoutOperationId log) :
    confirmations.Keeps (TakenBy (c.fingerprint true) log) (persist config phase lifecycle operation) s := by
  refine meets_bind.mpr ⟨⟨h.underway.busy, h.underway.known⟩, fun s' hrely reply hallowed => ?_⟩
  obtain ⟨⟨hinv, hbusy, hknown⟩, hfingerprint, hsince⟩ := h.rely hrely
  have hlogout : ∀ operation, logoutOf s'.account.revisionFingerprint = some operation →
      operation = c.logoutOperationId := by
    intro operation hoperation
    rw [hfingerprint] at hoperation
    exact (Option.some.inj hoperation).symm
  have haccepted : ∀ operation, logoutOf s'.account.revisionFingerprint = some operation →
      phase = .confirmed → Accepted operation s'.logouts := by
    intro operation hoperation hphase
    rw [hlogout operation hoperation]
    exact (hconfirmed hphase).mono hsince
  have hrecorded : TakenBy (c.fingerprint true) log
      { s' with account := { s'.account with operationPhase := phase } } := by
    refine ⟨⟨⟨hinv.recorded, ?_, haccepted, hinv.started, hinv.manifest⟩, hbusy, hknown⟩,
      hfingerprint, hsince⟩
    intro operation hoperation hphase hclosed
    -- the client is closed, so the phase has been recorded before
    obtain rfl : phase = .executing := hphase
    exact hinv.closed operation hoperation (hallowed rfl hclosed) hclosed
  refine ⟨⟨hrecorded.underway.inv, prefix_refl _⟩, takenBy_write hrecorded ⟨?_, ?_, ?_⟩⟩
  · exact fun operation hoperation => ⟨hinv.recorded operation hoperation, rfl⟩
  · exact haccepted
  · intro _
    change s'.account.revisionFingerprint ≠ none
    rw [hfingerprint]
    exact Option.some_ne_none _

theorem takenBy_confirmedLogout (haccepted : Accepted c.logoutOperationId log) :
    Meets confirmations.contract
      (fun answer s => s.account.busy = false ∧ CompletedAccepted (.logout c) (.ok answer) s)
      (fun _ => TakenBy (c.fingerprint true) log) (confirmedLogout config) s := by
  refine meets_seq (takenBy_calm (calm_activate config) h) (fun _ _ => id) fun _ s h => ?_
  refine meets_seq (takenBy_persist h _ _ _ nofun) (fun _ _ => id) fun _ s h => ?_
  refine meets_critical h.underway fun s' h' hrely => ?_
  obtain ⟨-, hfingerprint, hsince⟩ := h.rely hrely
  refine ⟨⟨h'.inv.recorded, nofun, nofun, nofun, h'.inv.manifest⟩, prefix_refl _, rfl, ?_⟩
  intro other revision hcommand _
  obtain rfl : c = other := Command.logout.inj hcommand
  exact haccepted.mono hsince

theorem takenBy_executeLogout (operation : Option Uuid) :
    Meets confirmations.contract
      (fun answer s => s.account.busy = false ∧ CompletedAccepted (.logout c) (.ok answer) s)
      (fun _ => TakenBy (c.fingerprint true) log) (executeLogout config operation) s := by
  refine meets_seq (takenBy_calm (calm_activate config) h) (fun _ _ => id) fun _ s h => ?_
  refine meets_seq (takenBy_persist h _ _ _ nofun) (fun _ _ => id) fun _ s h => ?_
  refine meets_bind.mpr (takenBy_reading h fun s h => ?_)
  refine meets_seq (takenBy_request h _ _) (fun _ _ => id) fun response s h => ?_
  refine meets_critical h.underway fun s' h' _ => ?_
  obtain ⟨hrecorded, hclosed, hconfirmed, hstarted, hmanifest⟩ := h'.inv
  refine ⟨⟨hrecorded, hclosed, hconfirmed, hstarted, hmanifest⟩, prefix_refl _, rfl, ?_⟩
  -- it is not complete, whatever TDLib answers
  intro other revision _ hresult
  refine absurd hresult ?_
  unfold answerLogout
  split
  · simp
  split
  · split <;> simp
  · simp

end

end Logout

section Begins

variable (c) (hinv : LogoutsConfirmed s) (hfree : s.account.busy = false)
include hinv hfree

theorem confirmed_logout :
    Begins confirmations (.logout c) ((Command.logout c).program config) s := by
  refine begins_entering (fun _ => rfl) hinv hfree ?_ (fun _ _ => confirmations_madeUp hinv c) ?_
  · exact fun _ _ _ _ _ hresult => absurd hresult (by simp)
  intro s hinv _ hknown _
  rcases beginLogout_cases c with ⟨code, status, heq⟩ | ⟨newOperation, account, heq, htaken⟩
  · exact Or.inl ⟨_, heq, fun _ _ _ hresult => absurd hresult (by simp)⟩
  refine Or.inr ⟨newOperation, by rw [heq], ?_⟩
  rw [heq]
  have htaken' := htaken.takenBy hinv hknown
  refine ⟨htaken'.underway.inv, ?_, meets_tryCatch.mpr ?_⟩
  · exact htaken'.since
  refine meets_seq (meets_onlyIf (takenBy_persist htaken' _ _ _ nofun) htaken') takenBy_giveUp
    fun _ s' h => ?_
  refine meets_bind.mpr ?_
  refine meets_critical h.underway fun s' h' hrely => ?_
  obtain ⟨-, hfingerprint, hsince⟩ := h.rely hrely
  refine ⟨h'.inv, prefix_refl _, ?_⟩
  have h : TakenBy (c.fingerprint true) s'.logouts s' := ⟨h', hfingerprint, prefix_refl _⟩
  have hlogout : logoutOf s'.account.revisionFingerprint = some c.logoutOperationId := by
    rw [hfingerprint]
    rfl
  split
  · -- the client was closed while the logout was executing
    rename_i hstate
    have haccepted := h'.inv.closed c.logoutOperationId hlogout hstate.2 hstate.1
    refine meets_seq (takenBy_persist h _ _ _ fun _ => haccepted) takenBy_giveUp fun _ s h => ?_
    exact (takenBy_confirmedLogout h haccepted).mono (fun _ _ => id) takenBy_giveUp
  split
  · rename_i hphase
    have haccepted := h'.inv.confirmed c.logoutOperationId hlogout hphase
    exact (takenBy_confirmedLogout h haccepted).mono (fun _ _ => id) takenBy_giveUp
  · exact (takenBy_executeLogout h _).mono (fun _ _ => id) takenBy_giveUp

omit hinv hfree in
theorem confirmations_beginAuthorization (hinv : LogoutsConfirmed s) :
    LogoutsConfirmed (beginAuthorization c s).2 ∧ s.logouts <+: (beginAuthorization c s).2.logouts := by
  unfold beginAuthorization
  dsimp only
  split_ifs
  · exact ⟨hinv, prefix_refl _⟩
  · exact ⟨hinv, prefix_refl _⟩
  · exact ⟨⟨hinv.recorded, hinv.closed, hinv.confirmed, hinv.started, hinv.manifest⟩, prefix_refl _⟩

end Begins

end Commands

theorem confirmations_kept (config : Config) : Kept config confirmations where
  beside event h hcloses := by
    obtain ⟨hinv, hlog⟩ := confirmations_beside event h hcloses
    exact ⟨hinv, hlog, fun _ _ => trivial⟩
  restart readable h := ⟨confirmations_restart h readable, prefix_refl _⟩
  refusal s hrefusal := by
    rintro c revision rfl rfl
    rcases hrefusal with ⟨code, hresult⟩ | ⟨code, status, hresult⟩ | ⟨c, hcommand⟩
    · exact absurd hresult (by simp)
    · exact absurd hresult (by simp)
    · exact absurd hcommand (by simp)
  begins command s hinv hfree _ := by
    have hends : (∀ c, command ≠ .logout c) → ∀ result s, confirmations.ends command result s :=
      fun hne _ _ _ _ heq => absurd heq (hne _)
    cases command with
    | reconcile c =>
      exact (confirmations_takes c).reconcile hinv hfree (hends (by simp))
        fun h => takenBy_calm (calm_closeAccount false) h
    | logout c => exact confirmed_logout c hinv hfree
    | updateProxy c => exact (confirmations_takes c).updateProxy hinv hfree (hends (by simp))
    | remove c =>
      have htakes : Takes config confirmations c _ _ := confirmations_takes c
      exact htakes.remove hinv hfree (hends (by simp)) htakes.toTends
        (fun h => takenBy_calm (calm_closeAccount true) h) fun h =>
          ⟨h.underway.inv.other _ h.fingerprint, prefix_refl _⟩
    | authorization c valid =>
      refine begins_signIn hinv hfree (hends (by simp)) (fun h _ _ => confirmations_madeUp h c)
        (fun h _ _ => confirmations_beginAuthorization c h)
        (fun client h => underway_calm (every_ask calm_mild client (by simp)) h) fun h => ?_
      obtain ⟨hrecorded, hclosed, hconfirmed, hstarted, hmanifest⟩ := h.inv
      exact ⟨⟨hrecorded, hclosed, hconfirmed, hstarted, hmanifest⟩, prefix_refl _⟩

section Runs

variable {config : Config}

theorem confirmations_init : Owned confirmations {} where
  inv := .of_none {} (fun _ hmanifest => absurd hmanifest (by simp)) rfl
    (fun hlifecycle => absurd hlifecycle (by simp)) rfl
  running := Or.inl ⟨rfl, rfl⟩
  returned _ hentry := absurd hentry not_mem_nil

/-- **A logout is complete only after TDLib accepted it**, in every run where clients close as the
condition says. -/
theorem accepted_of_run {events : List EngineEvent} {s : Engine}
    (hrun : Run (Within confirmations.Permitted fun s e s' => s.step config e = s') {} events s)
    {c : AccountCommand} {revision : ℕ}
    (hcompleted : (.logout c, .ok (.applied revision true)) ∈ s.returned) :
    Accepted c.logoutOperationId s.world.logouts := by
  have howned := (owned_of_run (confirmations_kept config) hrun confirmations_init).1
  exact howned.returned _ hcompleted c revision rfl rfl

instance (point : Option Point) (s : World) (event : EngineEvent) :
    Decidable (ClosesForLogout point s event) :=
  match event with
  | .closed _ _ => inferInstanceAs (Decidable (_ → _ → _ → _))
  | .advance _ _ => inferInstanceAs (Decidable (_ → _ → _))
  | .call _ | .authorization _ _ | .stalled _ | .stop | .pop | .persist _ | .settle | .requeue
  | .restart _ => inferInstanceAs (Decidable True)

instance (s : Engine) (event : EngineEvent) : Decidable (confirmations.Permitted s event) :=
  inferInstanceAs (Decidable (ClosesForLogout _ _ _))

/-- A command of `logout`. -/
def sampleLogout : AccountCommand := { generation := 7, revision := 1, logoutOperationId := some 5 }

/-- A `logout` that has recorded `executing`. -/
def sampleExecuting : List EngineEvent :=
  .call (.logout sampleLogout) ::
    advances ([.done, .done, .done] ++ sampleActivation ++ [.done, .done])

/-- A `logout` that is confirmed. -/
def sampleConfirming : List EngineEvent :=
  .call (.logout sampleLogout) ::
    advances ([.done, .done, .done] ++ sampleActivation ++ [.done, .done, .done])

/-- TDLib accepts `logOut`, and the client is closed. -/
def sampleLoggedOut : List EngineEvent :=
  sampleExecuting ++ advances [.done, .done, .answer .other, .done] ++
    .closed 1 (some .logOut) :: sampleConfirming

theorem accepted_of_run_loggedOut :
    let s := sampleLoggedOut.foldl (Engine.step sampleConfig) {}
    (.logout sampleLogout, .ok (.applied 1 true)) ∈ s.returned ∧
      Accepted (some 5) s.world.logouts := by
  intro s
  have hrun : Run (Within confirmations.Permitted fun s e s' => s.step sampleConfig e = s') {}
      sampleLoggedOut s := run_of_check _ (by decide +kernel)
  have hcompleted : (.logout sampleLogout, .ok (.applied 1 true)) ∈ s.returned := by
    have hhead : s.returned.head? = some (.logout sampleLogout, .ok (.applied 1 true)) := by
      decide +kernel
    exact List.mem_of_mem_head? hhead
  exact ⟨hcompleted, accepted_of_run hrun hcompleted⟩

/-- The process ends before `logOut` is transmitted; the new client cannot be set up, and it is
closed. -/
def sampleAbandoned : List EngineEvent :=
  sampleExecuting ++
    .restart true :: .call (.logout sampleLogout) ::
      advances [.done, .done, .done, .done, .refused false, .refused false, .done, .done, .done,
        .done] ++
    .closed 2 (some .close) :: sampleConfirming

/-- A logout that is complete without any `logOut`. -/
theorem confirmed_without_logOut :
    let s := sampleAbandoned.foldl (Engine.step sampleConfig) {}
    s.returned.head? = some (.logout sampleLogout, .ok (.applied 1 true)) ∧
      s.world.logouts = [.recorded (some 5)] ∧
      (∀ sent ∈ s.world.transmitted, sent.2 ≠ .logOut) ∧ ¬ Accepted (some 5) s.world.logouts := by
  intro s
  have hlog : s.world.logouts = [.recorded (some 5)] := by decide +kernel
  refine ⟨by decide +kernel, hlog, by decide +kernel, ?_⟩
  rintro ⟨before, after, heq, haccepted⟩
  have hmem : LogoutEvent.accepted ∈ s.world.logouts := by
    rw [heq]
    exact List.mem_append_right _ (List.mem_cons_of_mem _ haccepted)
  rw [hlog] at hmem
  exact absurd hmem (by simp)

end Runs

end Runtime
