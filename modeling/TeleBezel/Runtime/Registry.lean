import TeleBezel.Runtime.Broker

/-!
# Accounts and their manifests

`Registry` of `backend-tdlib/src/registry.cpp` keeps one manifest for an account, in a file that is
replaced as a whole. The runtime holds the account itself in memory, and loads it from the manifest
when it starts.
-/

namespace Runtime

/-- `storage.` errors. -/
inductive StorageError
  | missing
  | corrupt
  | invalidKey
  | ioError
  | unsafePath
  | identityMismatch
deriving DecidableEq

/-- `configuration.` errors. -/
inductive ConfigurationError
  | missing
  | invalid
  | environmentMismatch
deriving DecidableEq

/-- `service.` errors. -/
inductive ServiceError
  | busy
  | stopping
deriving DecidableEq

inductive ErrorCode
  | storage (error : StorageError)
  | configuration (error : ConfigurationError)
  | service (error : ServiceError)
  | telegramOperationFailed
  | operationConflict
  | operationOutcomeUnknown
  | accountGone
  | authorizationInvalidState
  | authorizationRefused
  /-- Texts of exceptions that are no codes. -/
  | other
deriving DecidableEq

/-- `lifecycle`; a command may name any. -/
inductive Lifecycle
  | provisioning
  | active
  | logoutPending
  | removing
  | removed
  | other (name : ℕ)
deriving DecidableEq

/-- `operation_phase`, or none. -/
inductive Phase
  | none
  | intent
  | executing
  | confirmed
  | closing
deriving DecidableEq

structure Proxy where
  id : Option Uuid := none
  settings : Option ℕ := some 0
deriving DecidableEq

def Proxy.abbreviated (proxy : Proxy) : Bool := proxy.id.isSome && proxy.settings.isNone

/-- What `command_fingerprint` takes the hash of: the fields of a command but `mode`, `lifecycle`,
`operation_id` and `authorization_generation`. Only the commands of `logout` have a
`logout_operation_id`. The hash is taken to be one to one. -/
structure Fingerprint where
  generation : Uuid
  revision : ℕ
  effectiveConfigId : Option Uuid
  telegramApiId : Option ℕ
  telegramApiHash : Option ℕ
  proxy : Proxy
  logoutOperationId : Option (Option Uuid)
deriving DecidableEq

/-- `AccountCommand`, without its fingerprint; an empty text is `none`. -/
structure AccountCommand where
  generation : Uuid
  revision : ℕ
  authorizationGeneration : Option ℕ := none
  effectiveConfigId : Option Uuid := none
  telegramApiId : Option ℕ := none
  telegramApiHash : Option ℕ := none
  lifecycle : Lifecycle := .provisioning
  restore : Bool := false
  operationId : Option Uuid := none
  logoutOperationId : Option Uuid := none
  proxy : Proxy := {}
deriving DecidableEq

/-- `command_fingerprint`. -/
def AccountCommand.fingerprint (command : AccountCommand) (logout : Bool) : Fingerprint where
  generation := command.generation
  revision := command.revision
  effectiveConfigId := command.effectiveConfigId
  telegramApiId := command.telegramApiId
  telegramApiHash := command.telegramApiHash
  proxy := command.proxy
  logoutOperationId := if logout then some command.logoutOperationId else none

structure AccountManifest where
  generation : Uuid
  useTestDc : Bool
  revision : ℕ
  lifecycle : Lifecycle
  operationId : Option Uuid
  tombstone : Bool
  proxy : Proxy
  contentHash : Option Fingerprint
  operationPhase : Phase
  appliedRevision : ℕ
  authorizationGeneration : ℕ
deriving DecidableEq

inductive AuthorizationState
  | awaitingReconciliation
  | initializing
  | awaitingPhoneNumber
  | premiumPurchaseRequired
  | awaitingEmailAddress
  | awaitingEmailCode
  | awaitingCode
  | awaitingQrConfirmation
  | registrationRequired
  | awaitingPassword
  | ready
  | loggingOut
  | closing
  | closed
  | error
deriving DecidableEq

/-- `AccountState`, without its session. -/
structure AccountState where
  revision : ℕ := 0
  appliedRevision : ℕ := 0
  authorizationGeneration : ℕ := 1
  readyGeneration : ℕ := 0
  proxy : Proxy := {}
  appliedProxy : Option Proxy := none
  generation : Uuid := 0
  lifecycle : Lifecycle := .provisioning
  authorizationState : AuthorizationState := .awaitingReconciliation
  lastError : Option ErrorCode := none
  operationId : Option Uuid := none
  operationPhase : Phase := .none
  revisionFingerprint : Option Fingerprint := none
  effectiveConfigId : Option Uuid := none
  telegramApiId : ℕ := 0
  telegramApiHash : Option ℕ := none
  appliedTelegramApiId : ℕ := 0
  appliedTelegramApiHash : Option ℕ := none
  clientId : ℕ := 0
  generationUnpersisted : Bool := false
  useTestDc : Bool := false
  proxyApplied : Bool := false
  reconciled : Bool := false
  closed : Bool := false
  closing : Bool := false
  tombstone : Bool := false
  busy : Bool := false
deriving DecidableEq

/-- `snapshot_manifest`, with the proxy of the account. -/
def AccountState.snapshotManifest (account : AccountState) (useTestDc : Bool) : AccountManifest where
  generation := account.generation
  useTestDc := useTestDc
  revision := account.revision
  lifecycle := account.lifecycle
  operationId := account.operationId
  tombstone := false
  proxy := account.proxy
  contentHash := account.revisionFingerprint
  operationPhase := account.operationPhase
  appliedRevision := account.appliedRevision
  authorizationGeneration := account.authorizationGeneration

/-- The account that `RuntimeEngine::start` makes of a manifest. -/
def AccountManifest.account (manifest : AccountManifest) : AccountState where
  generation := manifest.generation
  revision := manifest.revision
  appliedRevision := manifest.appliedRevision
  authorizationGeneration := manifest.authorizationGeneration
  useTestDc := manifest.useTestDc
  lifecycle := manifest.lifecycle
  operationId := manifest.operationId
  operationPhase := manifest.operationPhase
  revisionFingerprint := manifest.contentHash
  proxy := manifest.proxy
  tombstone := manifest.tombstone
  closed := manifest.tombstone

/-- `persist_authorization_generation`, as far as the file goes. -/
def persistAuthorizationGeneration (file : Option AccountManifest) (generation : ℕ) :
    Option AccountManifest :=
  file.map fun manifest =>
    if manifest.tombstone = true ∨ generation ≤ manifest.authorizationGeneration then manifest
    else { manifest with authorizationGeneration := generation }

end Runtime
