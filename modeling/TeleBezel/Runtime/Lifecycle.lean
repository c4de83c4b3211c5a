import TeleBezel.Lib.Program
import TeleBezel.Runtime.Registry

/-!
# The commands on accounts

`AccountLifecycleService` of `backend-tdlib/src/account_lifecycle_service.cpp`, for one account. A
command is a program: its actions are its critical sections, what it asks the file system, and what it
asks TDLib and waits for. Between them anything can happen to the account. The session of the account
(`reset_session`, the interests) is left out.
-/

namespace Runtime

open Program

abbrev ClientId := ℕ

inductive ClientFunction
  | setNetworkType (online : Bool)
  | setTdlibParameters (apiId : ℕ) (apiHash : Option ℕ)
  | disableProxy
  | addProxy (proxy : Proxy)
  | getProxies
  | removeProxy (id : ℤ)
  | logOut
  | close
  | destroy
  | authorize
deriving DecidableEq

/-- The configuration, and what `resolve_proxy` makes of a proxy: whether it is direct, or an error. -/
structure Config where
  useTestDc : Bool := false
  telegramApiId : ℕ := 0
  telegramApiHash : Option ℕ := none
  resolveProxy : Proxy → Option Bool := fun _ => some true

inductive Worker
  | idle
  | job (generation : ℕ)
  | stored (generation : ℕ) (failed : Bool)
  | retry (generation : ℕ)

/-- What happens to logouts: one is recorded, and TDLib accepts a `logOut`. -/
inductive LogoutEvent
  | recorded (operation : Option Uuid)
  | accepted
deriving DecidableEq

/-- All that commands share. The last three fields only tell what happened: which functions TDLib was
handed, what became of logouts, and the generations that were reported as stored. -/
structure World where
  account : AccountState := {}
  /-- The account is in memory. -/
  known : Bool := false
  manifest : Option AccountManifest := none
  directory : Bool := false
  orphan : Bool := false
  manifestError : Option ErrorCode := none
  /-- The clients that `client_accounts_` has for the account. -/
  clients : List ClientId := []
  nextClient : ClientId := 1
  queue : List ℕ := []
  worker : Worker := .idle
  transmitted : List (ClientId × ClientFunction) := []
  logouts : List LogoutEvent := []
  reported : List ℕ := []

inductive Point
  | critical
  /-- The critical section of `persist`. -/
  | record (phase : Phase)
  /-- Something else, with a manifest at hand that is to be written. -/
  | holding (manifest : AccountManifest)
  | write (manifest : AccountManifest)
  | files
  | begin (client : ClientId) (function : ClientFunction)
  | await (client : ClientId) (function : ClientFunction)
  | send (client : ClientId) (function : ClientFunction)
  | wait
deriving DecidableEq

inductive Reply
  | done
  /-- The broker is busy, or it stops. -/
  | refused (stopping : Bool)
  | threw (code : ErrorCode)
  /-- The file is in place, and the directory is not synchronized. -/
  | torn
  | answer (object : TdObject)
  | proxies (ids : List ℤ)
  | timedOut

abbrev Cmd := Prog Point World Reply ErrorCode

/-- What a command answers: `safe_error`, `account_json`, or the revision that is applied. -/
inductive Answer
  | failed (code : ErrorCode) (status : ℕ)
  | account (account : AccountState) (completed : Bool)
  | applied (revision : ℕ) (completed : Bool)
deriving DecidableEq

section Actions

variable {α : Type}

def critical (f : World → α × World) : Cmd α :=
  .act .critical (fun s _ => (f s).2) fun s _ => .ret (f s).1

def criticalOr (f : World → Except ErrorCode α × World) : Cmd α :=
  .act .critical (fun s _ => (f s).2) fun s _ =>
    match (f s).1 with
    | .ok value => .ret value
    | .error code => .raise code

def modifyAccount (f : AccountState → AccountState) : Cmd Unit :=
  critical fun s => ((), { s with account := f s.account })

def write (manifest : AccountManifest) : Cmd Unit :=
  .act (.write manifest)
    (fun s reply => match reply with
      | .threw _ => s
      | _ => { s with manifest := some manifest })
    fun _ reply => match reply with
      | .threw code => .raise code
      | .torn => .raise (.storage .ioError)
      | _ => .ret ()

def files (tag : Point) (f : World → World) : Cmd Unit :=
  .act tag
    (fun s reply => match reply with
      | .threw _ => s
      | _ => f s)
    fun _ reply => match reply with
      | .threw code => .raise code
      | _ => .ret ()

variable (client : ClientId)

/-- `begin_request`: the error of a request that is refused. -/
def beginRequest (function : ClientFunction) : Cmd (Option TdObject) :=
  .act (.begin client function)
    (fun s reply => match reply with
      | .refused _ | .threw _ => s
      | _ => { s with transmitted := s.transmitted ++ [(client, function)] })
    fun _ reply => match reply with
      | .refused stopping =>
        .ret (some (.error 503 (if stopping then "service.stopping" else "service.busy")))
      | .threw code => .raise code
      | _ => .ret none

/-- `await_request`: an answer, or an error when the time is over. -/
def awaitRequest (function : ClientFunction) :
    Option TdObject → Cmd (Option TdObject)
  | some refusal => pure (some refusal)
  | none =>
    .act (.await client function)
      (fun s reply => match reply with
        | .answer (.error _ _) => s
        | .answer _ =>
          if function = .logOut then { s with logouts := s.logouts ++ [.accepted] } else s
        | _ => s)
      fun _ reply => match reply with
        | .answer object => .ret (some object)
        | _ => .ret (some (.error 504 "operation.outcome_unknown"))

def request (function : ClientFunction) : Cmd (Option TdObject) := do
  let refusal ← beginRequest client function
  awaitRequest client function refusal

def send (function : ClientFunction) : Cmd Unit :=
  .act (.send client function)
    (fun s _ => { s with transmitted := s.transmitted ++ [(client, function)] })
    fun _ _ => .ret ()

/-- `getProxies`: the profiles to remove. -/
def requestProxies : Cmd (List ℤ) := do
  match ← beginRequest client .getProxies with
  | some _ => pure []
  | none =>
    .act (.await client .getProxies) (fun s _ => s) fun _ reply => match reply with
      | .proxies ids => .ret ids
      | _ => .ret []

end Actions

def onlyIf (condition : Bool) (part : Cmd Unit) : Cmd Unit := if condition then part else pure ()

def isError : Option TdObject → Bool
  | none | some (.error _ _) => true
  | _ => false

def throwRuntimeControlError (response : Option TdObject) : Cmd Unit :=
  if tdErrorCode response 504 then throw .operationOutcomeUnknown
  else if tdErrorMessage response "service.busy" then throw (.service .busy)
  else if tdErrorMessage response "service.stopping" then throw (.service .stopping)
  else pure ()

def expectAnswer (response : Option TdObject) (code : ErrorCode) : Cmd Unit := do
  throwRuntimeControlError response
  onlyIf (isError response) (throw code)

section Parts

variable (config : Config) (client : ClientId)

def retireProxies (client : ClientId) : List ℤ → Cmd Unit
  | [] => pure ()
  | id :: ids => do
    let _ ← request client (.removeProxy id)
    retireProxies client ids

/-- The part of `apply_proxy` that switches TDLib over. -/
def switchProxy (desired : Proxy) : Cmd Unit :=
  match config.resolveProxy desired with
  | none => throw (.configuration .invalid)
  | some true => do
    let disabled ← request client .disableProxy
    expectAnswer disabled (.configuration .invalid)
  | some false => do
    let response ← request client (.addProxy desired)
    throwRuntimeControlError response
    -- anything but the profile that was added
    onlyIf (response ≠ some .other) (throw (.configuration .invalid))

def applyProxy : Cmd Unit := do
  let state ← critical fun s => ((s.account.clientId, s.account.proxy), s)
  switchProxy config state.1 state.2
  let ids ← requestProxies state.1
  retireProxies state.1 ids
  modifyAccount fun account => { account with appliedProxy := some state.2, proxyApplied := true }

/-- The part of `activate` that creates the client. -/
def createClient : Cmd ClientId :=
  critical fun s =>
    (s.nextClient,
      { s with
        nextClient := s.nextClient + 1
        clients := s.nextClient :: s.clients
        account :=
          { s.account with
            clientId := s.nextClient
            closed := false
            proxyApplied := false
            appliedProxy := none
            appliedTelegramApiId := 0
            appliedTelegramApiHash := none } })

/-- The part of `activate` that sets a new client up. -/
def setUpClient (apiId : ℕ) (apiHash : Option ℕ) : Cmd Unit := do
  let network ← beginRequest client (.setNetworkType false)
  let parameters ← beginRequest client (.setTdlibParameters apiId apiHash)
  let response ← awaitRequest client (.setNetworkType false) network
  let parametersResponse ← awaitRequest client (.setTdlibParameters apiId apiHash) parameters
  expectAnswer response (.configuration .invalid)
  throwRuntimeControlError parametersResponse
  onlyIf (tdErrorCode parametersResponse 401) (throw (.storage .invalidKey))
  onlyIf (isError parametersResponse) (throw (.configuration .invalid))
  applyProxy config
  let online ← request client (.setNetworkType true)
  expectAnswer online (.configuration .invalid)
  modifyAccount fun account =>
    { account with appliedTelegramApiId := apiId, appliedTelegramApiHash := apiHash }

/-- The part of `activate` that closes a client that could not be set up. -/
def abandonClient (failure : ErrorCode) : Cmd Unit := do
  modifyAccount fun account =>
    if account.clientId = client then { account with closing := true } else account
  send client .close
  -- the wait for the client to be closed, or for the deadline
  .act .wait (fun s _ => s) fun _ _ => .raise failure

def activate : Cmd Unit := do
  let plan ← criticalOr fun s =>
    let account := s.account
    if account.clientId ≠ 0 ∧ account.closing then (.error .operationOutcomeUnknown, s)
    else if account.clientId ≠ 0 ∧ !account.closed then (.ok none, s)
    else
      (.ok (some
        (if account.telegramApiId = 0 then config.telegramApiId else account.telegramApiId,
          account.telegramApiHash <|> config.telegramApiHash)), s)
  match plan with
  | none => pure ()
  | some (apiId, apiHash) =>
    onlyIf (apiId = 0 ∨ apiHash = none) (throw (.configuration .missing))
    -- the master key
    files .files id
    let client ← createClient
    tryCatch (setUpClient config client apiId apiHash) (abandonClient client)

def closeAccount (destroy : Bool) : Cmd Unit := do
  let client ← .act .wait (fun s _ => s) fun s _ =>
    if s.account.closing then .raise .operationOutcomeUnknown
    else if s.account.clientId = 0 ∨ s.account.closed then .ret none
    else .ret (some s.account.clientId)
  match client with
  | none => pure ()
  | some client =>
    let response ← request client (if destroy then .destroy else .close)
    onlyIf (tdErrorCode response 504) (throw .operationOutcomeUnknown)
    onlyIf (isError response) (throw .telegramOperationFailed)
    .act .wait
      (fun s _ =>
        if s.account.closed then
          { s with
            clients := s.clients.filter fun other => other ≠ client
            account :=
              { s.account with
                clientId := 0
                proxyApplied := false
                appliedProxy := none
                appliedTelegramApiId := 0
                appliedTelegramApiHash := none } }
        else s)
      fun s _ => if s.account.closed then .ret () else .raise .operationOutcomeUnknown

/-- The checks of `validated_account`. -/
def checkAccount (account : AccountState) (command : AccountCommand) : Except ErrorCode Unit :=
  if account.useTestDc ≠ config.useTestDc then .error (.configuration .environmentMismatch)
  else if account.generation ≠ command.generation then .error (.storage .identityMismatch)
  else if command.revision < account.revision then .error .operationConflict
  else if command.authorizationGeneration.getD account.authorizationGeneration <
      account.authorizationGeneration then .error .operationConflict
  else if account.tombstone then .error .accountGone
  else .ok ()

def World.madeUp (command : AccountCommand) (s : World) : World :=
  { s with
    known := true
    account := { generation := command.generation, useTestDc := config.useTestDc } }

def validatedAccount (s : World) (command : AccountCommand) : Except ErrorCode Unit × World :=
  match s.manifestError with
  | some code => (.error code, s)
  | none =>
    if s.orphan ∧ command.lifecycle ≠ .provisioning then (.error (.storage .corrupt), s)
    else
      let s := if s.known then s else s.madeUp config command
      (checkAccount config s.account command, s)

/-- The first critical section of a command, after `validated_account`. -/
def entering {α : Type} (command : AccountCommand) (f : World → (Answer ⊕ α) × World) (s : World) :
    Except ErrorCode (Answer ⊕ α) × World :=
  match validatedAccount config s command with
  | (.error code, s) => (.error code, s)
  | (.ok _, s) => (.ok (f s).1, (f s).2)

def conflict : Answer := .failed .operationConflict 409

def giveUp {α : Type} (error : ErrorCode) : Cmd α := do
  modifyAccount fun account => { account with busy := false }
  throw error

end Parts

section Reconcile

variable (config : Config)

/-- What `reconcile` goes on with. -/
structure ReconcilePlan where
  manifest : AccountManifest
  recreateClient : Bool
  applyExistingProxy : Bool
deriving DecidableEq

/-- The first critical section of `reconcile`. -/
def beginReconcile (command : AccountCommand) (s : World) : (Answer ⊕ ReconcilePlan) × World :=
  let account := s.account
  let fingerprint := command.fingerprint false
  let desired := if command.proxy.abbreviated then account.proxy else command.proxy
  let apiId := command.telegramApiId.getD config.telegramApiId
  let apiHash := command.telegramApiHash <|> config.telegramApiHash
  let live := account.clientId ≠ 0 && !account.closed
  let settled := live && account.reconciled && account.operationId.isNone &&
    account.appliedRevision = command.revision && account.proxyApplied &&
    account.appliedProxy = some desired && account.appliedTelegramApiId = apiId &&
    account.appliedTelegramApiHash = apiHash
  if account.busy then (.inl conflict, s)
  else if command.revision = account.revision ∧ account.revisionFingerprint ≠ none ∧
      account.revisionFingerprint ≠ some fingerprint then (.inl conflict, s)
  else if command.restore ∧ !s.directory then (.inl (.failed (.storage .missing) 409), s)
  else if command.proxy.abbreviated ∧ account.proxy.id ≠ command.proxy.id then
    (.inl (.failed (.configuration .missing) 409), s)
  else if command.revision = account.revision ∧ account.revisionFingerprint ≠ none ∧ settled then
    (.inl (.account account true), s)
  else
    let recreateClient := live &&
      (account.appliedTelegramApiId ≠ apiId || account.appliedTelegramApiHash ≠ apiHash)
    let applyExistingProxy := live && !recreateClient &&
      (!account.proxyApplied || account.appliedProxy ≠ some desired)
    let account :=
      { account with
        busy := true
        authorizationGeneration :=
          command.authorizationGeneration.getD account.authorizationGeneration
        revision := command.revision
        effectiveConfigId := command.effectiveConfigId
        telegramApiId := apiId
        telegramApiHash := apiHash
        lifecycle := command.lifecycle
        proxy := desired
        operationId := command.operationId
        revisionFingerprint := some fingerprint }
    let manifest := { account.snapshotManifest config.useTestDc with operationPhase := .none }
    (.inr { manifest, recreateClient, applyExistingProxy }, { s with account })

/-- The last critical section of `reconcile`. -/
def finishReconcile (completed : AccountManifest) (s : World) : Answer × World :=
  let account :=
    { s.account with
      generationUnpersisted := s.account.generationUnpersisted &&
        s.account.authorizationGeneration ≠ completed.authorizationGeneration
      reconciled := true
      appliedRevision := s.account.revision
      lifecycle := .active
      operationId := none
      lastError := none
      busy := false }
  (.account account false, { s with account })

/-- The handler of `reconcile`. -/
def failReconcile (error : ErrorCode) (s : World) : Answer × World :=
  let reported := match error with
    | .operationOutcomeUnknown | .storage _ | .configuration _ | .service _
    | .telegramOperationFailed => error
    | _ => .configuration .invalid
  let status := match reported with
    | .operationOutcomeUnknown => 504
    | .service _ => 503
    | _ => 409
  (.failed reported status,
    { s with account := { s.account with busy := false, lastError := some reported } })

def reconcile (command : AccountCommand) : Cmd Answer := do
  match ← criticalOr (entering config command (beginReconcile config command)) with
  | .inl answer => pure answer
  | .inr plan =>
    tryCatch
      (do
        -- `ensure_account_directories`
        files (.holding plan.manifest) fun s => { s with directory := true }
        write plan.manifest
        critical fun s => ((), { s with orphan := false })
        onlyIf plan.recreateClient (closeAccount false)
        activate config
        onlyIf plan.applyExistingProxy (applyProxy config)
        let completed ← critical fun s =>
          ({ plan.manifest with
              lifecycle := .active
              operationId := none
              appliedRevision := s.account.revision
              authorizationGeneration := s.account.authorizationGeneration
              proxy := s.account.proxy }, s)
        write completed
        critical (finishReconcile completed))
      fun error => critical (failReconcile error)

end Reconcile

section Logout

variable (config : Config)

/-- The first critical section of `logout`: whether the operation is new. -/
def beginLogout (command : AccountCommand) (s : World) : (Answer ⊕ Bool) × World :=
  let account := s.account
  let fingerprint := command.fingerprint true
  let operation := command.logoutOperationId
  if account.busy then (.inl conflict, s)
  else if account.revision = command.revision ∧ account.revisionFingerprint ≠ none ∧
      account.revisionFingerprint ≠ some fingerprint then (.inl conflict, s)
  else if account.revision = command.revision ∧ account.lifecycle = .logoutPending ∧
      account.operationId ≠ operation then (.inl conflict, s)
  else
    let resuming := account.revision = command.revision ∧ account.lifecycle = .logoutPending ∧
      account.operationId = operation
    let account := if resuming then
        { account with
          revisionFingerprint := account.revisionFingerprint <|> some fingerprint
          -- a manifest without a phase is no proof that `logOut` reached TDLib
          operationPhase := if account.operationPhase = .none then .intent
            else account.operationPhase }
      else
        { account with
          revision := command.revision
          lifecycle := .logoutPending
          operationId := operation
          operationPhase := .intent
          revisionFingerprint := some fingerprint }
    let account :=
      { account with
        busy := true
        authorizationGeneration :=
          command.authorizationGeneration.getD account.authorizationGeneration
        reconciled := false }
    (.inr (!decide resuming),
      { s with
        account
        logouts := if resuming then s.logouts else s.logouts ++ [.recorded operation] })

/-- `persist` of `logout`. -/
def persist (phase : Phase) (lifecycle : Lifecycle) (operation : Option Uuid) : Cmd Unit := do
  let manifest ← .act (.record phase)
    (fun s _ => { s with account := { s.account with operationPhase := phase } })
    fun s _ =>
      .ret
        { s.account.snapshotManifest config.useTestDc with
          operationPhase := phase
          lifecycle := lifecycle
          operationId := operation
          appliedRevision :=
            if phase = .none then s.account.revision else s.account.appliedRevision }
  write manifest

/-- The last critical section of a `logout` that is confirmed. -/
def finishLogout (s : World) : Answer × World :=
  (.applied s.account.revision true,
    { s with
      account :=
        { s.account with
          lifecycle := .active
          appliedRevision := s.account.revision
          operationId := none
          operationPhase := .none
          reconciled := true
          busy := false } })

/-- The last critical section of a `logout` that asked TDLib. -/
def answerLogout (response : Option TdObject) (s : World) : Answer × World :=
  (if tdErrorCode response 504 then .failed .operationOutcomeUnknown 504
    else if isError response then
      if tdErrorMessage response "service.busy" then .failed (.service .busy) 503
      else .failed .telegramOperationFailed 502
    else .applied s.account.appliedRevision false,
    { s with account := { s.account with busy := false } })

/-- A `logout` that is confirmed: the account gets a new client. -/
def confirmedLogout : Cmd Answer := do
  activate config
  persist config .none .active none
  critical finishLogout

/-- A `logout` that asks TDLib. -/
def executeLogout (operation : Option Uuid) : Cmd Answer := do
  activate config
  persist config .executing .logoutPending operation
  let client ← critical fun s => (s.account.clientId, s)
  let response ← request client .logOut
  critical (answerLogout response)

def logout (command : AccountCommand) : Cmd Answer := do
  let operation := command.logoutOperationId
  match ← criticalOr (entering config command (beginLogout command)) with
  | .inl answer => pure answer
  | .inr newOperation =>
    tryCatch
      (do
        onlyIf newOperation (persist config .intent .logoutPending operation)
        let state ← critical fun s => ((s.account.closed, s.account.operationPhase), s)
        if state.1 ∧ state.2 = .executing then do
          persist config .confirmed .logoutPending operation
          confirmedLogout config
        else if state.2 = .confirmed then confirmedLogout config
        else executeLogout config operation)
      giveUp

end Logout

section UpdateProxy

variable (config : Config)

/-- The first critical section of `update_proxy`. -/
def beginUpdateProxy (command : AccountCommand) (s : World) :
    (Answer ⊕ AccountManifest) × World :=
  let account := s.account
  let fingerprint := command.fingerprint false
  let same := account.revision = command.revision ∧ account.revisionFingerprint ≠ none
  if account.busy then (.inl conflict, s)
  else if same ∧ account.revisionFingerprint ≠ some fingerprint then (.inl conflict, s)
  else if same ∧ !command.proxy.abbreviated ∧ account.proxy ≠ command.proxy then (.inl conflict, s)
  else if same ∧ account.operationId = none ∧ account.clientId ≠ 0 ∧ !account.closed ∧
      account.proxyApplied ∧ account.appliedProxy = some account.proxy then
    (.inl (.account account true), s)
  else if command.proxy.abbreviated ∧ account.proxy.id ≠ command.proxy.id then
    (.inl (.failed (.configuration .missing) 409), s)
  else
    let account :=
      { account with
        busy := true
        authorizationGeneration :=
          command.authorizationGeneration.getD account.authorizationGeneration
        revision := command.revision
        effectiveConfigId := command.effectiveConfigId
        proxy := if command.proxy.abbreviated then account.proxy else command.proxy
        operationId := command.operationId
        revisionFingerprint := some fingerprint }
    (.inr { account.snapshotManifest config.useTestDc with operationPhase := .none },
      { s with account })

/-- The last critical section of `update_proxy`. -/
def finishUpdateProxy (s : World) : Answer × World :=
  let account :=
    { s.account with
      reconciled := true
      appliedRevision := s.account.revision
      busy := false
      operationId := none }
  (.account account true, { s with account })

/-- `update_proxy`. Its three handlers do the same. -/
def updateProxy (command : AccountCommand) : Cmd Answer := do
  match ← criticalOr (entering config command (beginUpdateProxy config command)) with
  | .inl answer => pure answer
  | .inr intent =>
    tryCatch
      (do
        write intent
        let needsActivation ← critical fun s =>
          (decide (s.account.clientId = 0 ∨ s.account.closed), s)
        (if needsActivation then activate config else applyProxy config)
        let completed ← critical fun s =>
          ({ intent with
              operationId := none
              appliedRevision := s.account.revision
              authorizationGeneration := s.account.authorizationGeneration }, s)
        write completed
        critical finishUpdateProxy)
      giveUp

end UpdateProxy

section Remove

variable (config : Config) (command : AccountCommand)

/-- The first critical section of `remove`, for an account that is not removed. -/
def beginRemove (s : World) :
    (Answer ⊕ (AccountManifest × Bool)) × World :=
  let account := s.account
  let fingerprint := command.fingerprint false
  let same := account.revision = command.revision ∧ account.revisionFingerprint ≠ none
  if account.busy then (.inl conflict, s)
  else if account.revision = command.revision ∧ account.lifecycle = .removing ∧
      account.operationId ≠ command.operationId then (.inl conflict, s)
  else if same ∧ account.revisionFingerprint ≠ some fingerprint then (.inl conflict, s)
  else if same ∧ account.lifecycle = .removed then (.inl (.applied account.revision true), s)
  else if same ∧ (account.lifecycle ≠ .removing ∨ account.operationId ≠ command.operationId) then
    (.inl conflict, s)
  else
    let newOperation := account.revision ≠ command.revision ∨ account.lifecycle ≠ .removing
    let account := if newOperation then
        { account with
          revision := command.revision
          lifecycle := .removing
          operationId := command.operationId
          revisionFingerprint := some fingerprint
          operationPhase := .intent }
      else
        { account with
          operationPhase := if account.operationPhase = .none then .intent
            else account.operationPhase }
    let account :=
      { account with
        busy := true
        authorizationGeneration :=
          command.authorizationGeneration.getD account.authorizationGeneration
        reconciled := false
        revisionFingerprint := account.revisionFingerprint <|> some fingerprint }
    (.inr (account.snapshotManifest config.useTestDc, decide newOperation), { s with account })

/-- The first critical section of `remove`. -/
def enterRemove (s : World) :
    Except ErrorCode (Answer ⊕ (AccountManifest × Bool)) × World :=
  let account := s.account
  if s.known ∧ account.tombstone then
    if account.lifecycle = .removed ∧ command.generation = account.generation ∧
        command.revision = account.revision ∧
        account.revisionFingerprint = some (command.fingerprint false) then
      (.ok (.inl (.applied account.revision true)), s)
    else (.ok (.inl (.failed .accountGone 410)), s)
  else entering config command (beginRemove config command) s

/-- The last critical section of `remove`. -/
def finishRemove (s : World) : Answer × World :=
  (.applied s.account.revision true,
    { s with
      account :=
        { s.account with
          closed := true
          appliedRevision := s.account.revision
          tombstone := true
          reconciled := false
          busy := false
          lifecycle := .removed
          operationPhase := .confirmed } })

/-- `remove`. Its handlers do the same. -/
def remove : Cmd Answer := do
  match ← criticalOr (enterRemove config command) with
  | .inl answer => pure answer
  | .inr (intent, newOperation) =>
    tryCatch
      (do
        onlyIf newOperation (write intent)
        let closing ← .act (.holding intent)
          (fun s _ => { s with account := { s.account with operationPhase := .closing } })
          fun _ _ => .ret { intent with operationPhase := .closing }
        write closing
        closeAccount true
        -- `remove_account_directory`
        files .files fun s => { s with directory := false }
        let tombstone ← critical fun s =>
          ({ s.account.snapshotManifest config.useTestDc with
              lifecycle := .removed
              tombstone := true
              operationPhase := .confirmed
              appliedRevision := s.account.revision
              proxy := {} }, s)
        write tombstone
        critical finishRemove)
      giveUp

end Remove

section Authorization

variable (config : Config)

/-- The first critical section of `authorization_action`, where the version and the action are as they
must be. -/
def beginAuthorization (command : AccountCommand) (s : World) : (Answer ⊕ ClientId) × World :=
  let account := s.account
  if !account.reconciled then (.inl (.failed .authorizationInvalidState 409), s)
  else if account.busy then (.inl conflict, s)
  else
    (.inr account.clientId,
      { s with
        account :=
          { account with
            busy := true
            authorizationGeneration :=
              command.authorizationGeneration.getD account.authorizationGeneration } })

/-- The last critical section of `authorization_action`. The errors of TDLib are not told apart. -/
def finishAuthorization (response : Option TdObject) (s : World) : Answer × World :=
  let account := { s.account with busy := false }
  (if tdErrorCode response 504 then .failed .operationOutcomeUnknown 504
    else if isError response then .failed .authorizationRefused 422
    else .account account false,
    { s with account })

/-- `authorization_action`; `valid` is whether the version and the action are as they must be. -/
def authorizationAction (command : AccountCommand) (valid : Bool) : Cmd Answer := do
  match ← criticalOr (entering config command fun s =>
      if valid then beginAuthorization command s
      else (.inl (.failed .authorizationInvalidState 409), s)) with
  | .inl answer => pure answer
  | .inr client =>
    let response ← tryCatch (request client .authorize) giveUp
    critical (finishAuthorization response)

end Authorization

end Runtime
