import TeleBezel.Lib.Transition

/-!
# The owner's access

`OwnerAccessService` and `AccessTokenService` of `backend-api/app`: the owner logs in with a password,
recovers with a recovery code, and with a web session creates devices and new recovery codes. A
request is authenticated before the transaction that it asks for; every transaction that creates a
credential holds the row of the instance, so that each is one step here. What a hash is made of is up
to the hasher, and what is only shown of a token (its name, its prefix, when it was last used) is left
out, and so is the console.

Beside the tables it is counted how often the owner has recovered. Each credential keeps the count at
which it was created, and that of the credential behind the request that created it.
-/

open List

namespace Api.OwnerAccess

open Transition

inductive Permission
  | accountsRead
  | accountsManage
  | messagesRead
  | messagesSend
  | quickRepliesRead
  | quickRepliesManage
  | settingsManage
  | devicePreferences
deriving DecidableEq

inductive TokenType
  | device
  | maintenance
deriving DecidableEq

/-- `TokenType::permissions`, which `TokenClaims::full` gives to a token. -/
def TokenType.permissions : TokenType → List Permission
  | .device => [.accountsRead, .messagesRead, .messagesSend, .quickRepliesRead, .devicePreferences]
  | .maintenance =>
    [.accountsRead, .accountsManage, .settingsManage, .quickRepliesManage, .quickRepliesRead]

/-- `AccessTokenService::WEB_LIFETIME_HOURS`, `WEB_IDLE_SECONDS` and `DEVICE_LIMIT`; the times are in
seconds. -/
def webLifetime : ℕ := 12 * 3600

@[inherit_doc webLifetime] def webIdleSeconds : ℕ := 1800

@[inherit_doc webLifetime] def deviceLimit : ℕ := 20

/-- A row of `access_tokens`. -/
structure AccessToken where
  id : String
  instanceId : String
  type : TokenType
  hash : String
  permissions : List Permission
  expiresAt : Option ℕ := none
  idleTimeoutSeconds : Option ℕ := none
  lastActiveAt : Option ℕ := none
  revokedAt : Option ℕ := none
  /-- How often the owner had recovered when it was created. -/
  born : ℕ
  /-- How often the owner had recovered when the credential was created that the request which
  created this token was authenticated with. -/
  authority : ℕ
deriving DecidableEq

/-- The row of `instances`. -/
structure Instance where
  id : String
  ownerPasswordHash : Option String := none
  recoveryCodeHash : Option String := none
  /-- How often the owner had recovered when the password was set. -/
  passwordBorn : ℕ := 0
  /-- The same of the credential behind the request that made the recovery code. -/
  recoveryAuthority : ℕ := 0

/-- A row of `bootstrap_codes`. -/
structure BootstrapCode where
  id : String
  codeHash : String
  expiresAt : ℕ
  consumed : Bool := false

/-- `PrincipalContext`: the token that a request was authenticated with. -/
structure Principal where
  type : TokenType
  id : String
  instanceId : String
  permissions : List Permission
  born : ℕ

structure State where
  owner : Option Instance := none
  tokens : List AccessToken := []
  codes : List BootstrapCode := []
  requests : ℕ → Option Principal := fun _ => none
  /-- How often the owner has recovered. -/
  recoveries : ℕ := 0

/-- What `issue` makes at random: the id and the hash of a token. -/
structure Fresh where
  id : String
  hash : String

namespace AccessToken

def lapsed (now : ℕ) (token : AccessToken) : Bool :=
  token.expiresAt.any (· ≤ now) ||
    token.idleTimeoutSeconds.any fun idle => token.lastActiveAt.all fun last => last + idle ≤ now

/-- `AuthenticationService::token` accepts it. -/
def usable (now : ℕ) (token : AccessToken) : Bool :=
  token.revokedAt.isNone && !token.lapsed now

def revoked (now : ℕ) (token : AccessToken) : AccessToken :=
  { token with revokedAt := token.revokedAt <|> some now }

end AccessToken

namespace State

variable (s : State)

def admits (fresh : Fresh) : Bool :=
  s.tokens.all fun token => token.id ≠ fresh.id && token.hash ≠ fresh.hash

/-- `AccessTokenRepository::issue`, or none where the row cannot be inserted. -/
def issue (token : AccessToken) : Option State :=
  if s.admits ⟨token.id, token.hash⟩ then some { s with tokens := s.tokens ++ [token] } else none

variable (now : ℕ)

def issueWebSession (instanceId : String) (fresh : Fresh) (authority : ℕ) :
    Option State :=
  s.issue
    { id := fresh.id
      instanceId
      type := .maintenance
      hash := fresh.hash
      permissions := TokenType.maintenance.permissions
      expiresAt := some (now + webLifetime)
      idleTimeoutSeconds := some webIdleSeconds
      lastActiveAt := some now
      born := s.recoveries
      authority }

def activeCount (instanceId : String) (type : TokenType) : ℕ :=
  s.tokens.countP fun token => token.instanceId = instanceId && token.type = type &&
    token.revokedAt.isNone && token.expiresAt.all (now < ·)

/-- `lockInstance` finds the instance, there is room for a device, and its token is new. -/
def deviceAdmitted (instanceId : String) (fresh : Fresh) : Bool :=
  s.owner.any (·.id = instanceId) && s.activeCount now instanceId .device < deviceLimit &&
    s.admits fresh

/-- `AccessTokenService::issueDevice`, or none where it throws. -/
def issueDevice (instanceId : String) (fresh : Fresh) (authority : ℕ) :
    Option State :=
  if s.owner.any (·.id = instanceId) then
    if deviceLimit ≤ s.activeCount now instanceId .device then none
    else
      s.issue
        { id := fresh.id
          instanceId
          type := .device
          hash := fresh.hash
          permissions := TokenType.device.permissions
          born := s.recoveries
          authority }
  else none

def revokeInstance (instanceId : String) : State :=
  { s with tokens := s.tokens.map fun token =>
      if token.instanceId = instanceId then token.revoked now else token }

/-- `AccessTokenRepository::revoke`, of a token that a condition admits. -/
def revoke (admitted : AccessToken → Bool) (id : String) : State :=
  { s with tokens := s.tokens.map fun token =>
      if token.id = id ∧ admitted token then token.revoked now else token }

def activity (id : String) : State :=
  { s with tokens := s.tokens.map fun token =>
      if token.id = id ∧ token.revokedAt.isNone then { token with lastActiveAt := some now }
      else token }

end State

abbrev Check := String → String → Bool

section Services

variable (matching : Check)

namespace State

/-- `OwnerAccessService::bootstrap`, or none where it throws. -/
def bootstrap (s : State) (now : ℕ) (codeHash newId passwordHash recoveryHash : String)
    (fresh : Fresh) : Option State := do
  let entry ← s.codes.find? (·.codeHash = codeHash)
  if entry.consumed ∨ entry.expiresAt ≤ now then none
  else if (s.owner.bind (·.ownerPasswordHash)).isSome then none
  else
    let id := (s.owner.map (·.id)).getD newId
    let saved : State := { s with
      owner := some
        { id
          ownerPasswordHash := some passwordHash
          recoveryCodeHash := some recoveryHash
          passwordBorn := s.recoveries
          recoveryAuthority := s.recoveries }
      codes := s.codes.map fun code =>
        if code.id = entry.id then { code with consumed := true } else code }
    saved.issueWebSession now id fresh s.recoveries

/-- `OwnerAccessService::login`, or none where it throws. -/
def login (s : State) (now : ℕ) (password : String) (fresh : Fresh) : Option State := do
  let owner ← s.owner
  let hash ← owner.ownerPasswordHash
  if matching password hash then s.issueWebSession now owner.id fresh owner.passwordBorn else none

/-- `OwnerAccessService::recover`, or none where it throws. -/
def recover (s : State) (now : ℕ) (code passwordHash recoveryHash : String) (fresh : Fresh) :
    Option State := do
  let owner ← s.owner
  let hash ← owner.recoveryCodeHash
  if matching code hash then
    let recoveries := s.recoveries + 1
    let saved : State := { s with
      recoveries
      owner := some { owner with
        ownerPasswordHash := some passwordHash
        recoveryCodeHash := some recoveryHash
        passwordBorn := recoveries
        recoveryAuthority := recoveries } }
    (saved.revokeInstance now owner.id).issueWebSession now owner.id fresh recoveries
  else none

/-- `OwnerAccessService::rotateRecoveryCode`, or none where it throws. -/
def rotateRecoveryCode (s : State) (instanceId recoveryHash : String) (authority : ℕ) :
    Option State := do
  let owner ← s.owner
  if owner.id ≠ instanceId then none
  else some { s with owner := some { owner with
    recoveryCodeHash := some recoveryHash
    recoveryAuthority := authority } }

/-- The middleware authenticates a request by the hash of its token. A token that has run out is
revoked then. -/
def authenticate (s : State) (now request : ℕ) (hash : String) : State :=
  match s.tokens.find? fun token => token.hash = hash && token.revokedAt.isNone with
  | none => s
  | some token =>
    if token.lapsed now then s.revoke now (fun _ => true) token.id
    else
      let principal : Principal :=
        ⟨token.type, token.id, token.instanceId, token.permissions, token.born⟩
      { s with requests := Function.update s.requests request (some principal) }

def close (s : State) (request : ℕ) : State :=
  { s with requests := Function.update s.requests request none }

end State

inductive Action
  /-- `DeviceService::create`. -/
  | createDevice (fresh : Fresh)
  /-- `DeviceService::revoke`. -/
  | revokeDevice (id : String)
  | rotateRecoveryCode (recoveryHash : String)
  | activity
  | logout

inductive Event
  /-- The console makes a bootstrap code. -/
  | bootstrapCode (code : BootstrapCode)
  | bootstrap (codeHash newId passwordHash recoveryHash : String) (fresh : Fresh)
  | login (password : String) (fresh : Fresh)
  | recover (code passwordHash recoveryHash : String) (fresh : Fresh)
  | authenticate (request : ℕ) (hash : String)
  /-- A request that has been authenticated does what it asks for. -/
  | perform (request : ℕ) (action : Action)

/-- `RequirePermission` for an action; the session's own actions ask for none. -/
def Action.permitted (principal : Principal) : Action → Bool
  | .createDevice _ | .revokeDevice _ | .rotateRecoveryCode _ =>
    principal.permissions.contains .settingsManage
  | .activity | .logout => true

def State.act (s : State) (now : ℕ) (principal : Principal) : Action → Option State
  | .createDevice fresh => s.issueDevice now principal.instanceId fresh principal.born
  | .revokeDevice id =>
    some (s.revoke now (fun token => token.instanceId = principal.instanceId && token.type = .device)
      id)
  | .rotateRecoveryCode recoveryHash =>
    s.rotateRecoveryCode principal.instanceId recoveryHash principal.born
  | .activity => some (s.activity now principal.id)
  | .logout => some (s.revoke now (fun _ => true) principal.id)

def step (s : State) : ℕ × Event → State
  | (_, .bootstrapCode code) => { s with codes := s.codes ++ [code] }
  | (now, .bootstrap codeHash newId passwordHash recoveryHash fresh) =>
    (s.bootstrap now codeHash newId passwordHash recoveryHash fresh).getD s
  | (now, .login password fresh) => (s.login matching now password fresh).getD s
  | (now, .recover code passwordHash recoveryHash fresh) =>
    (s.recover matching now code passwordHash recoveryHash fresh).getD s
  | (now, .authenticate request hash) => s.authenticate now request hash
  | (now, .perform request action) =>
    match s.requests request with
    | none => s
    | some principal =>
      if action.permitted principal then ((s.act now principal action).getD s).close request
      else s.close request

/-- **What a recovery leaves**: whatever token can be used, and the recovery code, were created by the
last recovery, or by a request that was authenticated with a credential created since. -/
def Recovered (s : State) : Prop :=
  (∀ now, ∀ token ∈ s.tokens, token.usable now → s.recoveries ≤ token.authority) ∧
    ∀ owner, s.owner = some owner → owner.recoveryCodeHash ≠ none →
      s.recoveries ≤ owner.recoveryAuthority

def State.creates (s : State) (now : ℕ) (principal : Principal) : Action → Bool
  | .createDevice fresh => s.deviceAdmitted now principal.instanceId fresh
  | .rotateRecoveryCode _ => s.owner.any (·.id = principal.instanceId)
  | _ => false

/-- A principal that makes a new credential has a token that was created since the last recovery. -/
def State.Renews (s : State) (now : ℕ) (principal : Principal) (action : Action) : Prop :=
  action.permitted principal → s.creates now principal action → s.recoveries ≤ principal.born

instance (s : State) (now : ℕ) (principal : Principal) (action : Action) :
    Decidable (s.Renews now principal action) := inferInstanceAs (Decidable (_ → _ → _))

/-- A request that makes a new credential was authenticated with a token that was created since the
last recovery. -/
def Renewed (s : State) : ℕ × Event → Prop
  | (now, .perform request action) => ∀ principal ∈ s.requests request, s.Renews now principal action
  | _ => True

instance (s : State) : (event : ℕ × Event) → Decidable (Renewed s event)
  | (now, .perform request action) =>
    inferInstanceAs (Decidable (∀ principal ∈ s.requests request, s.Renews now principal action))
  | (_, .bootstrapCode _) | (_, .bootstrap _ _ _ _ _) | (_, .login _ _) | (_, .recover _ _ _ _)
  | (_, .authenticate _ _) => isTrue trivial

/-- What a run keeps: the same of every token that is not revoked, and of the password; and the tokens
are of the one instance. -/
structure Sound (s : State) : Prop where
  tokens : ∀ token ∈ s.tokens, token.revokedAt = none → s.recoveries ≤ token.authority
  code : ∀ owner, s.owner = some owner → s.recoveries ≤ owner.recoveryAuthority
  password : ∀ owner, s.owner = some owner → s.recoveries ≤ owner.passwordBorn
  own : ∀ token ∈ s.tokens, s.owner.map (·.id) = some token.instanceId

variable {matching} {s s' : State} {now : ℕ}

theorem Sound.recovered (h : Sound s) : Recovered s := by
  refine ⟨fun now token hmem husable => h.tokens token hmem ?_, fun owner howner _ => h.code owner howner⟩
  simp only [AccessToken.usable, Bool.and_eq_true, Option.isNone_iff_eq_none] at husable
  exact husable.1

theorem Sound.issue (h : Sound s) {token : AccessToken} (hauthority : s.recoveries ≤ token.authority)
    (hown : s.owner.map (·.id) = some token.instanceId) (hissued : s.issue token = some s') :
    Sound s' := by
  unfold State.issue at hissued
  split_ifs at hissued
  cases hissued
  refine ⟨fun other hmem hopen => ?_, h.code, h.password, fun other hmem => ?_⟩
  · rcases mem_append.mp hmem with hmem | hmem
    · exact h.tokens other hmem hopen
    · rw [mem_singleton.mp hmem]
      exact hauthority
  · rcases mem_append.mp hmem with hmem | hmem
    · exact h.own other hmem
    · rw [mem_singleton.mp hmem]
      exact hown

theorem Sound.map (h : Sound s) (f : AccessToken → AccessToken)
    (hf : ∀ token, (f token).authority = token.authority ∧
      (f token).instanceId = token.instanceId ∧
      ((f token).revokedAt = none → token.revokedAt = none)) :
    Sound { s with tokens := s.tokens.map f } := by
  refine ⟨fun token hmem hopen => ?_, h.code, h.password, fun token hmem => ?_⟩
  · obtain ⟨before, hbefore, rfl⟩ := mem_map.mp hmem
    rw [(hf before).1]
    exact h.tokens before hbefore ((hf before).2.2 hopen)
  · obtain ⟨before, hbefore, rfl⟩ := mem_map.mp hmem
    rw [(hf before).2.1]
    exact h.own before hbefore

theorem revokedAt_revoked (token : AccessToken) : (token.revoked now).revokedAt ≠ none := by
  unfold AccessToken.revoked
  cases token.revokedAt <;> exact nofun

theorem Sound.revoke (h : Sound s) (admitted : AccessToken → Bool) (id : String) :
    Sound (s.revoke now admitted id) := by
  refine h.map _ fun token => ?_
  split_ifs
  · exact ⟨rfl, rfl, fun hopen => absurd hopen (revokedAt_revoked token)⟩
  · exact ⟨rfl, rfl, fun hopen => hopen⟩

theorem Sound.activity (h : Sound s) (id : String) : Sound (s.activity now id) := by
  refine h.map _ fun token => ?_
  split_ifs
  · exact ⟨rfl, rfl, fun hopen => hopen⟩
  · exact ⟨rfl, rfl, fun hopen => hopen⟩

theorem Sound.of_requests {requests : ℕ → Option Principal} (h : Sound s) :
    Sound { s with requests } := ⟨h.tokens, h.code, h.password, h.own⟩

theorem Sound.authenticate (h : Sound s) (request : ℕ) (hash : String) :
    Sound (s.authenticate now request hash) := by
  unfold State.authenticate
  split
  · exact h
  · split_ifs
    · exact h.revoke _ _
    · exact h.of_requests

theorem Sound.bootstrap (h : Sound s) {codeHash newId passwordHash recoveryHash : String}
    {fresh : Fresh} (hs : s.bootstrap now codeHash newId passwordHash recoveryHash fresh = some s') :
    Sound s' := by
  obtain ⟨entry, -, hs⟩ := Option.bind_eq_some_iff.mp hs
  split_ifs at hs
  refine Sound.issue ?_ (Nat.le_refl _) rfl hs
  refine ⟨h.tokens, ?_, ?_, fun token hmem => ?_⟩
  · rintro owner ⟨⟩
    exact Nat.le_refl _
  · rintro owner ⟨⟩
    exact Nat.le_refl _
  · -- an instance that is there keeps its id, and without one there are no tokens
    have hown := h.own token hmem
    simp only [Option.map_some, hown, Option.getD_some]

theorem Sound.login (h : Sound s) {password : String} {fresh : Fresh}
    (hs : s.login matching now password fresh = some s') : Sound s' := by
  obtain ⟨owner, howner, hs⟩ := Option.bind_eq_some_iff.mp hs
  obtain ⟨hash, -, hs⟩ := Option.bind_eq_some_iff.mp hs
  split_ifs at hs
  refine h.issue (h.password owner howner) ?_ hs
  rw [howner]
  rfl

theorem Sound.recover (h : Sound s) {code passwordHash recoveryHash : String} {fresh : Fresh}
    (hs : s.recover matching now code passwordHash recoveryHash fresh = some s') : Sound s' := by
  obtain ⟨owner, howner, hs⟩ := Option.bind_eq_some_iff.mp hs
  obtain ⟨hash, -, hs⟩ := Option.bind_eq_some_iff.mp hs
  split_ifs at hs
  have hinstance : ∀ token ∈ s.tokens, token.instanceId = owner.id := by
    intro token hmem
    have hown := h.own token hmem
    rw [howner] at hown
    exact (Option.some.inj hown).symm
  refine Sound.issue ⟨fun token hmem hopen => ?_, ?_, ?_, fun token hmem => ?_⟩ (Nat.le_refl _) rfl hs
  · obtain ⟨before, hbefore, rfl⟩ := mem_map.mp hmem
    rw [if_pos (hinstance before hbefore)] at hopen
    exact absurd hopen (revokedAt_revoked before)
  · rintro owner' ⟨⟩
    exact Nat.le_refl _
  · rintro owner' ⟨⟩
    exact Nat.le_refl _
  · obtain ⟨before, hbefore, rfl⟩ := mem_map.mp hmem
    rw [if_pos (hinstance before hbefore)]
    exact congrArg some (hinstance before hbefore).symm

theorem issueDevice_cases (s : State) (now : ℕ) (instanceId : String) (fresh : Fresh)
    (authority : ℕ) :
    (s.deviceAdmitted now instanceId fresh = false ∧
        s.issueDevice now instanceId fresh authority = none) ∨
      (s.deviceAdmitted now instanceId fresh = true ∧ ∃ token : AccessToken,
        token.authority = authority ∧ token.instanceId = instanceId ∧
        (∀ now, token.usable now = true) ∧ s.issue token = some { s with tokens := s.tokens ++ [token] } ∧
        s.issueDevice now instanceId fresh authority =
          some { s with tokens := s.tokens ++ [token] }) := by
  unfold State.issueDevice State.deviceAdmitted State.issue
  by_cases howner : s.owner.any (·.id = instanceId) = true
  · by_cases hlimit : deviceLimit ≤ s.activeCount now instanceId .device
    · refine .inl ⟨?_, by rw [if_pos howner, if_pos hlimit]⟩
      simp [Nat.not_lt.mpr hlimit]
    · by_cases hfresh : s.admits fresh = true
      · refine .inr ⟨by simp [howner, hfresh, Nat.not_le.mp hlimit],
          { id := fresh.id
            instanceId
            type := .device
            hash := fresh.hash
            permissions := TokenType.device.permissions
            born := s.recoveries
            authority }, rfl, rfl, fun _ => rfl, ?_, ?_⟩
        · exact if_pos hfresh
        · rw [if_pos howner, if_neg hlimit]
          exact if_pos hfresh
      · refine .inl ⟨by simp [hfresh], ?_⟩
        rw [if_pos howner, if_neg hlimit]
        exact if_neg hfresh
  · refine .inl ⟨by simp [howner], ?_⟩
    rw [if_neg howner]

/-- **A request of the middleware** leaves nothing to those who had access before the last recovery,
exactly when it makes no credential for them. -/
theorem act_cases (h : Sound s) (principal : Principal) (action : Action) :
    (Sound ((s.act now principal action).getD s) ∧
        (s.creates now principal action = false ∨ s.recoveries ≤ principal.born)) ∨
      (¬ Recovered ((s.act now principal action).getD s) ∧ s.creates now principal action = true ∧
        ¬ s.recoveries ≤ principal.born) := by
  cases action with
  | createDevice fresh =>
    simp only [State.act, State.creates]
    rcases issueDevice_cases s now principal.instanceId fresh principal.born with
      ⟨hrefused, hnone⟩ | ⟨hadmitted, token, hauthority, hinstance, husable, hissued, hsome⟩
    · rw [hnone]
      exact .inl ⟨h, .inl hrefused⟩
    · rw [hsome]
      by_cases hborn : s.recoveries ≤ principal.born
      · refine .inl ⟨h.issue (hauthority ▸ hborn) ?_ hissued, .inr hborn⟩
        simp only [State.deviceAdmitted, Bool.and_eq_true] at hadmitted
        rw [hinstance]
        cases howner : s.owner with
        | none => simp [howner] at hadmitted
        | some owner =>
          rw [howner] at hadmitted
          exact congrArg some (of_decide_eq_true hadmitted.1.1)
      · refine .inr ⟨fun hrecovered => hborn ?_, hadmitted, hborn⟩
        rw [← hauthority]
        exact hrecovered.1 now token (mem_append_right _ (mem_singleton_self token))
          (husable now)
  | rotateRecoveryCode recoveryHash =>
    simp only [State.act, State.creates, State.rotateRecoveryCode]
    cases howner : s.owner with
    | none => exact .inl ⟨h, .inl rfl⟩
    | some owner =>
      by_cases hid : owner.id = principal.instanceId
      · simp only [Option.bind_eq_bind, Option.bind_some, hid, ne_eq, not_true_eq_false, if_false,
          Option.getD_some, Option.any_some, decide_true]
        by_cases hborn : s.recoveries ≤ principal.born
        · refine .inl ⟨⟨h.tokens, ?_, ?_, fun token hmem => ?_⟩, .inr hborn⟩
          · rintro owner' ⟨⟩
            exact hborn
          · rintro owner' ⟨⟩
            exact h.password owner howner
          · have hown := h.own token hmem
            rw [howner] at hown
            exact (congrArg some hid.symm).trans hown
        · refine .inr ⟨fun hrecovered => hborn ?_, trivial, hborn⟩
          exact hrecovered.2 _ rfl nofun
      · simp only [Option.bind_eq_bind, Option.bind_some, hid, ne_eq, not_false_eq_true, if_true,
          Option.getD_none, Option.any_some, decide_false]
        exact .inl ⟨h, .inl trivial⟩
  | revokeDevice id => exact .inl ⟨h.revoke _ _, .inl rfl⟩
  | activity => exact .inl ⟨h.activity _, .inl rfl⟩
  | logout => exact .inl ⟨h.revoke _ _, .inl rfl⟩

theorem sound_getD {result : Option State} (h : Sound s) (hresult : ∀ s', result = some s' → Sound s') :
    Sound (result.getD s) := by
  cases result with
  | none => exact h
  | some s' => exact hresult s' rfl

theorem step_cases (h : Sound s) (event : ℕ × Event) :
    (Sound (step matching s event) ∧ Renewed s event) ∨
      (¬ Recovered (step matching s event) ∧ ¬ Renewed s event) := by
  obtain ⟨now, event⟩ := event
  cases event with
  | bootstrapCode code => exact .inl ⟨⟨h.tokens, h.code, h.password, h.own⟩, trivial⟩
  | bootstrap codeHash newId passwordHash recoveryHash fresh =>
    exact .inl ⟨sound_getD h fun _ => h.bootstrap, trivial⟩
  | login password fresh => exact .inl ⟨sound_getD h fun _ => h.login, trivial⟩
  | recover code passwordHash recoveryHash fresh =>
    exact .inl ⟨sound_getD h fun _ => h.recover, trivial⟩
  | authenticate request hash => exact .inl ⟨h.authenticate request hash, trivial⟩
  | perform request action =>
    simp only [step, Renewed]
    cases hrequest : s.requests request with
    | none => exact .inl ⟨h, nofun⟩
    | some principal =>
      dsimp only
      by_cases hpermitted : action.permitted principal = true
      · rw [if_pos hpermitted]
        rcases @act_cases s now h principal action with ⟨hsound, hcase⟩ | ⟨hnot, hcreates, hborn⟩
        · refine .inl ⟨hsound.of_requests, ?_⟩
          rintro _ ⟨⟩ _ hcreates
          exact hcase.resolve_left fun hfalse => Bool.false_ne_true (hfalse.symm.trans hcreates)
        · exact .inr ⟨fun hrecovered => hnot hrecovered,
            fun hrenewed => hborn (hrenewed principal rfl hpermitted hcreates)⟩
      · rw [if_neg hpermitted]
        refine .inl ⟨h.of_requests, ?_⟩
        rintro _ ⟨⟩ hallowed
        exact absurd hallowed hpermitted

theorem sound_start : Sound {} := ⟨nofun, nofun, nofun, nofun⟩

/-- **Exactly the steps of the owner** leave nothing to those who had access before the last
recovery. -/
theorem recovered_step_iff (h : Sound s) (event : ℕ × Event) :
    Recovered (step matching s event) ↔ Renewed s event := by
  rcases @step_cases matching s h event with ⟨hsound, hrenewed⟩ | ⟨hnot, hold⟩
  · exact iff_of_true hsound.recovered hrenewed
  · exact iff_of_false hnot hold

/-- **Recovery revokes every credential** in every state of a run, exactly when every request that makes
a new one was authenticated with a token that is from after the last recovery. -/
theorem recovered_of_run (matching : Check) (events : List (ℕ × Event)) :
    (∀ before, before <+: events → Recovered (before.foldl (step matching) {})) ↔
      check (step matching) Renewed {} events = true := by
  refine always_iff_check (step matching) (fun s event h => recovered_step_iff h event) ?_ sound_start
    sound_start.recovered events
  intro s event h hrenewed
  rcases @step_cases matching s h event with ⟨hsound, -⟩ | ⟨-, hold⟩
  · exact hsound
  · exact absurd hrenewed hold

/-- The owner has a web session, whose token has leaked. The request of the one who has it is
authenticated; the owner recovers; then the request creates a device. -/
def leaked : List (ℕ × Event) :=
  [(0, .bootstrapCode ⟨"c", "code", 900, false⟩),
    (1, .bootstrap "code" "i" "old" "sheet" ⟨"t", "session"⟩),
    (2, .authenticate 0 "session"),
    (3, .recover "sheet" "new" "sheet 2" ⟨"u", "session 2"⟩),
    (4, .perform 0 (.createDevice ⟨"v", "device"⟩))]

/-- A request that was authenticated before a recovery creates a device after it. -/
theorem device_outlives_recovery :
    ¬ Recovered (leaked.foldl (step fun text hash => text == hash) {}) := by
  intro h
  have hdevice := h.1 5
    { id := "v"
      instanceId := "i"
      type := .device
      hash := "device"
      permissions := TokenType.device.permissions
      born := 1
      authority := 0 } (by decide) (by decide)
  exact absurd hdevice (by decide)

end Services

end Api.OwnerAccess
