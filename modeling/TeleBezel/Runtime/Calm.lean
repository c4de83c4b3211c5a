import TeleBezel.Runtime.Engine

/-!
# What commands and updates leave alone

Most of what a command asks of TDLib changes only what the runtime knows of its clients. What happens
beside a command changes neither what commands decide on nor, but for the generation, what is in the
file.
-/

namespace Runtime

open Program

structure Decided where
  revision : ℕ
  appliedRevision : ℕ
  generation : Uuid
  useTestDc : Bool
  lifecycle : Lifecycle
  operationId : Option Uuid
  operationPhase : Phase
  revisionFingerprint : Option Fingerprint
  tombstone : Bool
  busy : Bool

def AccountState.decided (account : AccountState) : Decided where
  revision := account.revision
  appliedRevision := account.appliedRevision
  generation := account.generation
  useTestDc := account.useTestDc
  lifecycle := account.lifecycle
  operationId := account.operationId
  operationPhase := account.operationPhase
  revisionFingerprint := account.revisionFingerprint
  tombstone := account.tombstone
  busy := account.busy

def AccountManifest.decided (manifest : AccountManifest) : AccountManifest :=
  { manifest with authorizationGeneration := 0 }

def World.decided (s : World) :=
  (s.account.decided, s.known, s.manifest.map AccountManifest.decided, s.manifestError)

def Same (s s' : World) : Prop := s'.decided = s.decided

namespace Same

variable {s s' s'' : World}

theorem refl (s : World) : Same s s := rfl

section

variable (h : Same s s')
include h

theorem trans (h' : Same s' s'') : Same s s'' := Eq.trans h' h

theorem account : s'.account.decided = s.account.decided := congrArg (·.1) h

theorem known : s'.known = s.known := congrArg (·.2.1) h

theorem manifest :
    s'.manifest.map AccountManifest.decided = s.manifest.map AccountManifest.decided :=
  congrArg (·.2.2.1) h

theorem manifestError : s'.manifestError = s.manifestError :=
  congrArg (·.2.2.2) h

theorem busy : s'.account.busy = s.account.busy := congrArg Decided.busy h.account

theorem lifecycle : s'.account.lifecycle = s.account.lifecycle :=
  congrArg Decided.lifecycle h.account

theorem operationPhase : s'.account.operationPhase = s.account.operationPhase :=
  congrArg Decided.operationPhase h.account

theorem revisionFingerprint :
    s'.account.revisionFingerprint = s.account.revisionFingerprint :=
  congrArg Decided.revisionFingerprint h.account

end

end Same

/-- Only what is known of the clients has changed, and no client is taken for closed. -/
structure Calm (s s' : World) : Prop where
  same : Same s s'
  generation : s'.account.authorizationGeneration = s.account.authorizationGeneration
  manifest : s'.manifest = s.manifest
  queue : s'.queue = s.queue
  worker : s'.worker = s.worker
  logouts : s'.logouts = s.logouts
  reported : s'.reported = s.reported
  closed : s'.account.closed = true → s.account.closed = true

namespace Calm

theorem refl (s : World) : Calm s s := ⟨rfl, rfl, rfl, rfl, rfl, rfl, rfl, id⟩

theorem of_account (s : World) (account : AccountState)
    (hdecided : account.decided = s.account.decided)
    (hgeneration : account.authorizationGeneration = s.account.authorizationGeneration)
    (hclosed : account.closed = true → s.account.closed = true) : Calm s { s with account } where
  same := Prod.ext hdecided rfl
  generation := hgeneration
  manifest := rfl
  queue := rfl
  worker := rfl
  logouts := rfl
  reported := rfl
  closed := hclosed

end Calm

section Actions

variable {α : Type} {rel : World → World → Prop}

theorem every_critical {f : World → α × World} (h : ∀ s, rel s (f s).2) :
    (critical f).Every rel := fun s _ => ⟨h s, trivial⟩

theorem every_criticalOr {f : World → Except ErrorCode α × World} (h : ∀ s, rel s (f s).2) :
    (criticalOr f).Every rel := by
  intro s _
  refine ⟨h s, ?_⟩
  dsimp only
  cases (f s).1 with
  | error code | ok value => exact trivial

theorem every_onlyIf {condition : Bool} {part : Cmd Unit} (h : part.Every rel) :
    (onlyIf condition part).Every rel := by
  unfold onlyIf
  split
  · exact h
  · exact trivial

theorem every_throw (code : ErrorCode) : (throw code : Cmd α).Every rel := trivial

theorem every_pure (value : α) : (pure value : Cmd α).Every rel := trivial

theorem calm_transmitted (s : World) (sent : List (ClientId × ClientFunction)) :
    Calm s { s with transmitted := sent } :=
  ⟨rfl, rfl, rfl, rfl, rfl, rfl, rfl, id⟩

/-- A relation that asking TDLib stays within, and so does noting what TDLib runs with. -/
structure Mild (rel : World → World → Prop) : Prop where
  refl : ∀ s, rel s s
  transmitted : ∀ s sent, rel s { s with transmitted := sent }
  proxy : ∀ s proxy, rel s
    { s with account := { s.account with appliedProxy := some proxy, proxyApplied := true } }
  credentials : ∀ s apiId apiHash, rel s
    { s with
      account := { s.account with appliedTelegramApiId := apiId, appliedTelegramApiHash := apiHash } }

theorem every_files (tag : Point) {f : World → World} (hrefl : ∀ s, rel s s) (h : ∀ s, rel s (f s)) :
    (files tag f).Every rel := by
  intro s reply
  cases reply with
  | threw code => exact ⟨hrefl s, trivial⟩
  | _ => exact ⟨h s, trivial⟩

section Mild

variable (hmild : Mild rel)
include hmild

variable (client : ClientId)

theorem every_beginRequest (function : ClientFunction) :
    (beginRequest client function).Every rel := by
  intro s reply
  cases reply with
  | refused stopping | threw code => exact ⟨hmild.refl s, trivial⟩
  | _ => exact ⟨hmild.transmitted s _, trivial⟩

theorem every_awaitRequest {function : ClientFunction}
    (hfunction : function ≠ .logOut) (refusal : Option TdObject) :
    (awaitRequest client function refusal).Every rel := by
  cases refusal with
  | some refusal => exact trivial
  | none =>
    intro s reply
    cases reply with
    | answer object =>
      cases object with
      | error code text => exact ⟨hmild.refl s, trivial⟩
      | _ =>
        dsimp only
        rw [if_neg hfunction]
        exact ⟨hmild.refl s, trivial⟩
    | _ => exact ⟨hmild.refl s, trivial⟩

theorem every_ask {function : ClientFunction}
    (hfunction : function ≠ .logOut) : (request client function).Every rel :=
  (every_beginRequest hmild client function).bind fun refusal =>
    every_awaitRequest hmild client hfunction refusal

theorem every_send (function : ClientFunction) :
    (send client function).Every rel := fun s _ => ⟨hmild.transmitted s _, trivial⟩

theorem every_requestProxies : (requestProxies client).Every rel := by
  refine (every_beginRequest hmild client .getProxies).bind fun refusal => ?_
  cases refusal with
  | some refusal => exact trivial
  | none =>
    intro s reply
    cases reply with
    | _ => exact ⟨hmild.refl s, trivial⟩

theorem every_retireProxies (ids : List ℤ) :
    (retireProxies client ids).Every rel := by
  induction ids with
  | nil => exact trivial
  | cons id ids ih => exact (every_ask hmild client (by simp)).bind fun _ => ih

end Mild

theorem every_request (hrefl : ∀ s, rel s s)
    (hsent : ∀ s sent, rel s { s with transmitted := sent })
    (haccepted : ∀ s, rel s { s with logouts := s.logouts ++ [.accepted] }) (client : ClientId)
    (function : ClientFunction) : (request client function).Every rel := by
  refine Prog.Every.bind ?_ fun refusal => ?_
  · intro s reply
    cases reply with
    | refused stopping | threw code => exact ⟨hrefl s, trivial⟩
    | _ => exact ⟨hsent s _, trivial⟩
  · cases refusal with
    | some refusal => exact trivial
    | none =>
      intro s reply
      cases reply with
      | answer object =>
        cases object with
        | error code text => exact ⟨hrefl s, trivial⟩
        | _ =>
          refine ⟨?_, trivial⟩
          split
          · exact haccepted s
          · exact hrefl s
      | _ => exact ⟨hrefl s, trivial⟩

theorem every_throwRuntimeControlError (response : Option TdObject) :
    (throwRuntimeControlError response).Every rel := by
  unfold throwRuntimeControlError
  split
  · exact trivial
  split
  · exact trivial
  split
  · exact trivial
  · exact trivial

theorem every_expectAnswer (response : Option TdObject) (code : ErrorCode) :
    (expectAnswer response code).Every rel :=
  (every_throwRuntimeControlError response).bind fun _ => every_onlyIf (every_throw code)

end Actions

section Parts

variable (config : Config) {rel : World → World → Prop} (hmild : Mild rel)
include hmild

variable (client : ClientId)

theorem every_switchProxy (desired : Proxy) :
    (switchProxy config client desired).Every rel := by
  unfold switchProxy
  split
  · exact every_throw _
  · exact (every_ask hmild client (by simp)).bind fun _ => every_expectAnswer _ _
  · refine (every_ask hmild client (by simp)).bind fun response => ?_
    refine (every_throwRuntimeControlError response).bind fun _ => ?_
    exact every_onlyIf (every_throw _)

theorem every_applyProxy : (applyProxy config).Every rel := by
  refine (every_critical fun s => hmild.refl s).bind fun state => ?_
  refine (every_switchProxy config hmild _ _).bind fun _ => ?_
  refine (every_requestProxies hmild _).bind fun ids => ?_
  refine (every_retireProxies hmild _ ids).bind fun _ => ?_
  exact every_critical fun s => hmild.proxy s state.2

theorem every_setUpClient (apiId : ℕ) (apiHash : Option ℕ) :
    (setUpClient config client apiId apiHash).Every rel := by
  refine (every_beginRequest hmild client _).bind fun network => ?_
  refine (every_beginRequest hmild client _).bind fun parameters => ?_
  refine (every_awaitRequest hmild client (by simp) network).bind fun response => ?_
  refine (every_awaitRequest hmild client (by simp) parameters).bind fun parametersResponse => ?_
  refine (every_expectAnswer response _).bind fun _ => ?_
  refine (every_throwRuntimeControlError parametersResponse).bind fun _ => ?_
  refine (every_onlyIf (every_throw _)).bind fun _ => ?_
  refine (every_onlyIf (every_throw _)).bind fun _ => ?_
  refine (every_applyProxy config hmild).bind fun _ => ?_
  refine (every_ask hmild client (by simp)).bind fun online => ?_
  refine (every_expectAnswer online _).bind fun _ => ?_
  exact every_critical fun s => hmild.credentials s apiId apiHash

theorem every_abandonClient (hclosing : ∀ s, s.account.clientId = client →
      rel s { s with account := { s.account with closing := true } }) (failure : ErrorCode) :
    (abandonClient client failure).Every rel := by
  refine Prog.Every.bind ?_ fun _ => (every_send hmild client .close).bind fun _ => ?_
  · refine every_critical fun s => ?_
    dsimp only
    split
    · rename_i hcurrent
      exact hclosing s hcurrent
    · exact hmild.refl s
  · exact fun s _ => ⟨hmild.refl s, trivial⟩

theorem every_closeAccount (hend : ∀ s client, s.account.closed = true → rel s
      { s with
        clients := s.clients.filter fun other => other ≠ client
        account :=
          { s.account with
            clientId := 0
            proxyApplied := false
            appliedProxy := none
            appliedTelegramApiId := 0
            appliedTelegramApiHash := none } })
    (destroy : Bool) : (closeAccount destroy).Every rel := by
  have hstart : (Prog.act Point.wait (fun s _ => s) fun s _ =>
      if s.account.closing then .raise .operationOutcomeUnknown
      else if s.account.clientId = 0 ∨ s.account.closed then .ret none
      else .ret (some s.account.clientId) : Cmd (Option ClientId)).Every rel := by
    intro s _
    refine ⟨hmild.refl s, ?_⟩
    dsimp only
    split
    · exact trivial
    split
    · exact trivial
    · exact trivial
  refine hstart.bind fun client => ?_
  cases client with
  | none => exact every_pure ()
  | some client =>
    have hfunction : (if destroy then ClientFunction.destroy else .close) ≠ .logOut := by
      split <;> simp
    refine (every_ask hmild client hfunction).bind fun response => ?_
    refine (every_onlyIf (every_throw _)).bind fun _ => ?_
    refine (every_onlyIf (every_throw _)).bind fun _ => ?_
    intro s _
    dsimp only
    split
    · rename_i hclosed
      exact ⟨hend s client hclosed, trivial⟩
    · exact ⟨hmild.refl s, trivial⟩

end Parts

section Calm

variable (config : Config)

theorem calm_mild : Mild Calm where
  refl := Calm.refl
  transmitted := calm_transmitted
  proxy s _ := Calm.of_account s _ rfl rfl id
  credentials s _ _ := Calm.of_account s _ rfl rfl id

theorem calm_applyProxy : (applyProxy config).Every Calm := every_applyProxy config calm_mild

theorem calm_activate : (activate config).Every Calm := by
  refine (every_criticalOr fun s => ?_).bind fun plan => ?_
  · dsimp only
    split
    · exact Calm.refl s
    split
    · exact Calm.refl s
    · exact Calm.refl s
  · cases plan with
    | none => exact every_pure ()
    | some ids =>
      refine (every_onlyIf (every_throw _)).bind fun _ => ?_
      refine (every_files .files Calm.refl fun s => Calm.refl s).bind fun _ => ?_
      refine (every_critical fun s => ?_).bind fun client => ?_
      · exact ⟨rfl, rfl, rfl, rfl, rfl, rfl, rfl, fun h => absurd h (by simp)⟩
      · refine (every_setUpClient config calm_mild client ids.1 ids.2).tryCatch ?_
        exact every_abandonClient calm_mild client fun s _ => Calm.of_account s _ rfl rfl id

theorem calm_closeAccount (destroy : Bool) : (closeAccount destroy).Every Calm :=
  every_closeAccount calm_mild
    (fun _ _ _ => ⟨rfl, rfl, rfl, rfl, rfl, rfl, rfl, id⟩) destroy

end Calm

section Beside

variable (s : World)

theorem same_leaveSession (state : AuthorizationState) : Same s (leaveSession state s) := by
  unfold leaveSession
  split
  · exact rfl
  · exact rfl

variable (client : ClientId)

theorem same_handleAuthorization (state : AuthorizationState) :
    Same s (handleAuthorization client state s) := by
  unfold handleAuthorization
  split
  · exact Same.refl s
  dsimp only
  have hleave : Same s (if s.account.authorizationState = .ready ∧ state ≠ .ready then
      leaveSession state s else s) := by
    split
    · exact same_leaveSession s state
    · exact Same.refl s
  split
  · exact hleave.trans rfl
  · exact hleave.trans rfl

theorem same_handleClosed (cause : Option ClientFunction) :
    Same s (handleClosed client cause s) :=
  (same_handleAuthorization s client .closed).trans rfl

theorem same_stall : Same s (stall client s) := by
  unfold stall
  split <;> exact rfl

theorem same_stop : Same s (stop s) := by
  unfold stop
  split
  · exact rfl
  · exact Same.refl s

theorem same_pop : Same s (pop s) := by
  unfold pop
  split
  · exact rfl
  · exact Same.refl s

theorem decided_persistAuthorizationGeneration (file : Option AccountManifest) (generation : ℕ) :
    (persistAuthorizationGeneration file generation).map AccountManifest.decided =
      file.map AccountManifest.decided := by
  cases file with
  | none => rfl
  | some manifest =>
    unfold persistAuthorizationGeneration
    simp only [Option.map_some]
    split <;> rfl

theorem same_persistJob (reply : Reply) : Same s (persistJob reply s) := by
  unfold persistJob
  split
  · split
    · exact rfl
    · exact Prod.ext rfl
        (Prod.ext rfl (Prod.ext (decided_persistAuthorizationGeneration _ _) rfl))
    · exact Prod.ext rfl
        (Prod.ext rfl (Prod.ext (decided_persistAuthorizationGeneration _ _) rfl))
  · exact Same.refl s

theorem same_settle : Same s (settle s) := by
  unfold settle
  split
  · split
    · exact rfl
    split
    · exact rfl
    · exact rfl
  · exact Same.refl s

theorem same_requeue : Same s (requeue s) := by
  unfold requeue
  split
  · exact rfl
  · exact Same.refl s

end Beside

end Runtime
