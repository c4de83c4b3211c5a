import TeleBezel.Api.Account

/-!
# Reconciliation

`ReconciliationService::run` and the part of `TelegramAccountService` that carries the accounts of
the API to the runtime, as processes against the tables that the owner's requests change at the
same time. A process takes one step for each read, each transaction and each answer of the
runtime. The lock of a pass expires, so any number of passes may go on at once; where the cursor
of a pass stands, which of its accounts are due or healthy and when its time is over is left to
the events.
-/

namespace Api.Reconcile

open Api

/-- A row of `proxy_profiles`, as far as the runtime is sent it. -/
structure ProxyProfile where
  mode : ProxyMode
  host : String
  port : ℕ
  httpOnly : Bool := false
  username : Option String := none
  password : Option String := none
  secret : Option String := none

/-- The row of `instances`, as far as the runtime is sent it. -/
structure Instance where
  activeProxyProfileId : Option Uuid := none
  telegramApiId : Option ℕ := none
  telegramApiHash : Option String := none
  configurationRevision : ℕ := 1
deriving DecidableEq

/-- What `configuration` returns. -/
structure Configuration where
  proxy : Proxy
  telegramApiId : Option ℕ
  telegramApiHash : Option String
deriving DecidableEq

/-- `configuration`, from its two reads. -/
def configuration (settings : Instance) (profile : Option ProxyProfile) : Configuration where
  proxy := match profile with
    | some profile => {
        id := settings.activeProxyProfileId
        mode := profile.mode
        host := some profile.host
        port := some profile.port
        httpOnly := some profile.httpOnly
        username := profile.username.filter (· ≠ "")
        password := profile.password
        secret := profile.secret }
    | none => { mode := .direct }
  telegramApiId := settings.telegramApiId
  telegramApiHash := settings.telegramApiHash

structure Given where
  /-- None when the account has a proxy of its own whose configuration is gone. -/
  proxy : Option Proxy
  credentials : Option (ℕ × String)
deriving DecidableEq

variable (account : AccountData)

/-- What `command` takes of the row and of the configuration. -/
def effective (account : AccountData) (config : Configuration) : Given where
  proxy := match account.proxyId with
    | none => some config.proxy
    | some _ => account.proxyConfig.map fun stored =>
        { stored with version := some account.proxyConfigVersion }
  credentials := match config.telegramApiId, config.telegramApiHash with
    | some id, some hash => some (id, hash)
    | _, _ => none

inductive Kind
  | provision (restore : Bool)
  | updateProxy
  | logout (logoutOperationId : Option Uuid)
  | remove
deriving DecidableEq

structure Command where
  uuid : Uuid
  generation : Uuid
  authorizationGeneration : ℕ
  revision : ℕ
  effectiveConfigId : Uuid
  credentials : Option (ℕ × String)
  operationId : Option Uuid
  lifecycle : AccountLifecycle
  proxy : Proxy
  kind : Kind
deriving DecidableEq

def Command.given (command : Command) : Given := ⟨some command.proxy, command.credentials⟩

/-- `command`, with the entries its callers add. -/
def command (config : Configuration) (kind : Kind) : Option Command :=
  let given := effective account config
  given.proxy.map fun proxy =>
    { uuid := account.id
      generation := account.storageGeneration
      authorizationGeneration := account.authorizationGeneration
      revision := account.desiredRevision
      effectiveConfigId := account.effectiveConfigId
      credentials := given.credentials
      operationId := account.operationId
      lifecycle := account.lifecycle
      proxy
      kind }

structure Held where
  account : AccountData
  /-- What the configuration gave the account when its row was read. -/
  inForce : Given
deriving DecidableEq

/-- `reconcile` on an account: the rest of the pass it belongs to, the configuration it was
given, and whether this is its second try. -/
structure Job where
  later : Option (Configuration × List Held)
  held : Held
  config : Configuration
  retried : Bool := false
deriving DecidableEq

inductive Purpose
  /-- `reconcile`, after the runtime reported a conflict. -/
  | retry (job : Job)
  /-- `applyEffectiveProxy`. -/
  | apply
deriving DecidableEq

inductive Task
  /-- `find`, before it reads the row. -/
  | finding (id : Uuid) (purpose : Purpose)
  /-- `find`, while the runtime is asked for a snapshot. -/
  | found (held : Held) (purpose : Purpose)
  /-- Before `configuration`: of a pass, or of `applyEffectiveProxy` for a row. -/
  | configuring (held : Option Held)
  /-- `configuration`, between its two reads. -/
  | settingsRead (held : Option Held) (settings : Instance)
  /-- A pass, between two accounts. -/
  | pass (config : Configuration) (batch : List Held)
  /-- Before a command is built. -/
  | commanding (job : Job) (kind : Kind)
  /-- While the runtime has a command. -/
  | commanded (job : Job) (sent : Command)
  /-- Before `abandonLogout`. -/
  | abandoning (job : Job)
  /-- Before `confirm`. -/
  | confirming (job : Job) (sent : Command) (data : Snapshot)
deriving DecidableEq

/-- An `effective_config_id` that was assigned, with what was in force for the account then. -/
structure Assignment where
  account : Uuid
  effectiveConfigId : Uuid
  given : Given

structure State where
  settings : Instance := {}
  profiles : Uuid → Option ProxyProfile := fun _ => none
  accounts : List AccountData := []
  tasks : ℕ → Option Task := fun _ => none
  next : ℕ := 0
  assigned : List Assignment := []
  /-- The commands that were sent. -/
  commands : List Command := []
  /-- The rows whose revision `confirm` marked as applied, with the commands that were answered. -/
  confirmed : List (AccountData × Command) := []

/-- What can happen. Where the source draws a `uuid`, the event has it. -/
inductive Event
  | create (id storageGeneration effectiveConfigId : Uuid) (proxy : Proxy)
  | updateProxy (id : Uuid) (revision : ℕ) (proxy : Proxy) (effectiveConfigId operation : Uuid)
  | logout (id operation : Uuid)
  | remove (id operation : Uuid)
  /-- `SettingsRepository::update`; a value that is not named stays. -/
  | settings (revision : ℕ) (apiId : Option (Option ℕ)) (apiHash : Option (Option String))
      (effectiveConfigId operation : Uuid → Uuid)
  | activate (profile : Option Uuid) (effectiveConfigId operation : Uuid → Uuid)
  /-- `ProxyProfileRepository::configure`. -/
  | configure
  | createProfile (id : Uuid) (profile : ProxyProfile)
  | deleteProfile (id : Uuid)
  | run
  | applyEffectiveProxy (id : Uuid)
  | readSettings (process : ℕ)
  | readProfile (process : ℕ)
  | batch (process : ℕ) (ids : List Uuid)
  | next (process : ℕ)
  /-- A pass leaves an account out, or ends. -/
  | skip (process : ℕ)
  | find (process : ℕ)
  /-- The snapshot, or none when the runtime reports an error. -/
  | snapshot (process : ℕ) (snapshot : Option Snapshot)
  | command (process : ℕ)
  | answer (process : ℕ) (answer : Except String Snapshot)
  | abandon (process : ℕ) (operation : Uuid)
  | confirm (process : ℕ)
  /-- The process dies. -/
  | crash (process : ℕ)

def provisioned (id storageGeneration effectiveConfigId : Uuid) (proxy : Proxy) : AccountData where
  id := id
  storageGeneration := storageGeneration
  effectiveConfigId := effectiveConfigId
  proxyId := proxy.id
  proxyConfig := if proxy.mode = .inherit then none else some proxy
  proxyConfigVersion := if proxy.mode = .inherit then 0 else 1

def revised (concerned : AccountData → Bool) (effectiveConfigId operation : Uuid → Uuid)
    (account : AccountData) : AccountData :=
  if concerned account then
    { account with
      desiredRevision := account.desiredRevision + 1
      effectiveConfigId := effectiveConfigId account.id
      operationId := some (operation account.id) }
  else account

namespace State

variable (s : State)

def configuration : Configuration :=
  Reconcile.configuration s.settings (s.settings.activeProxyProfileId.bind s.profiles)

def find? (id : Uuid) : Option AccountData := s.accounts.find? fun a => a.id = id

def hold (s : State) (account : AccountData) : Held := ⟨account, effective account s.configuration⟩

/-- `Str::uuid` draws no value twice. -/
def fresh (id effectiveConfigId : Uuid) : Bool :=
  s.assigned.all fun a => a.account ≠ id || a.effectiveConfigId ≠ effectiveConfigId

variable (process : ℕ)

def goOn (task : Task) : State :=
  { s with tasks := Function.update s.tasks process (some task) }

def drop : State :=
  { s with tasks := Function.update s.tasks process none }

def begin (task : Task) : State := { s.goOn s.next task with next := s.next + 1 }

def resume (job : Job) : State :=
  match job.later with
  | some (config, batch) => s.goOn process (.pass config batch)
  | none => s.drop process

def mutate (id : Uuid) (transition : AccountData → AccountData) : State :=
  { s with accounts := s.accounts.map fun a => if a.id = id then transition a else a }

/-- The settings change, and every account that they concern is given a new revision. -/
def assign (settings : Instance) (concerned : AccountData → Bool)
    (effectiveConfigId operation : Uuid → Uuid) : State :=
  if s.accounts.all fun a => s.fresh a.id (effectiveConfigId a.id) then
    let s := { s with
      settings, accounts := s.accounts.map (revised concerned effectiveConfigId operation) }
    { s with assigned := s.assigned ++ (s.accounts.filter concerned).map fun a =>
        ⟨a.id, a.effectiveConfigId, effective a s.configuration⟩ }
  else s

def update (revision : ℕ) (apiId : Option (Option ℕ)) (apiHash : Option (Option String))
    (effectiveConfigId operation : Uuid → Uuid) : State :=
  if s.settings.configurationRevision ≠ revision then s
  else
    s.assign
      { s.settings with
        telegramApiId := (apiId.map fun id => id.map (max 1)).getD s.settings.telegramApiId
        telegramApiHash := apiHash.getD s.settings.telegramApiHash
        configurationRevision := s.settings.configurationRevision + 1 }
      (fun a => a.lifecycle ≠ .removed) effectiveConfigId operation

/-- `activateLocked`. -/
def activate (profile : Option Uuid) (effectiveConfigId operation : Uuid → Uuid) :
    State :=
  if profile.all fun id => (s.profiles id).isSome then
    s.assign
      { s.settings with
        activeProxyProfileId := profile
        configurationRevision := s.settings.configurationRevision + 1 }
      (fun a => a.proxyId = none && a.lifecycle ≠ .removed) effectiveConfigId operation
  else s

/-- `create`, of an account that is new. -/
def create (id storageGeneration effectiveConfigId : Uuid) (proxy : Proxy) : State :=
  match normalizedProxy proxy with
  | .error _ => s
  | .ok proxy =>
    if (s.find? id).isSome ∨ ¬ s.fresh id effectiveConfigId then s
    else
      let account := provisioned id storageGeneration effectiveConfigId proxy
      { s with
        accounts := s.accounts ++ [account]
        assigned := s.assigned ++ [⟨id, effectiveConfigId, effective account s.configuration⟩] }

def updateProxy (id : Uuid) (revision : ℕ) (proxy : Proxy)
    (effectiveConfigId operation : Uuid) : State :=
  match normalizedProxy proxy, s.find? id with
  | .ok proxy, some account =>
    match account.updateProxy revision proxy effectiveConfigId operation with
    | .error _ => s
    | .ok account =>
      if s.fresh id effectiveConfigId then
        { s.mutate id fun _ => account with
          assigned := s.assigned ++ [⟨id, effectiveConfigId, effective account s.configuration⟩] }
      else s
  | _, _ => s

/-- `reconcileIntent`. -/
def intend (job : Job) : State :=
  match job.held.account.lifecycle with
  | .removed => s.resume process job
  | .removing => s.goOn process (.commanding job .remove)
  | .logoutPending =>
    s.goOn process (.commanding job (.logout job.held.account.logoutOperationId))
  | .active => s.goOn process (.commanding job (.provision true))
  | .provisioning => s.goOn process (.commanding job (.provision false))

/-- An exception in `reconcileIntent`: a first conflict is tried again on the row as it is then. -/
def throw (job : Job) (errorCode : String) : State :=
  if errorCode = "operation.conflict" ∧ ¬ job.retried then
    s.goOn process (.finding job.held.account.id (.retry job))
  else s.resume process job

/-- `find`, up to its call of the runtime. -/
def find (id : Uuid) (purpose : Purpose) : State :=
  match s.find? id, purpose with
  | some account, _ =>
    if account.lifecycle = .removed then
      match purpose with
      | .retry job => s.resume process job
      | .apply => s.drop process
    else s.goOn process (.found (s.hold account) purpose)
  | none, .retry job => s.resume process job
  | none, .apply => s.drop process

def persistSnapshotState (s : State) (account : AccountData) : State :=
  s.mutate account.id fun current =>
    if current.storageGeneration = account.storageGeneration ∧
        current.desiredRevision = account.desiredRevision ∧
        current.effectiveConfigId = account.effectiveConfigId ∧
        current.authorizationGeneration ≤ account.authorizationGeneration ∧
        current.lifecycle ≠ .removed then
      { current with
        appliedRevision := account.appliedRevision
        operationId := account.operationId
        authorizationGeneration := account.authorizationGeneration }
    else current

/-- What the callers of `find` do with the account. -/
def found (held : Held) : Purpose → State
  | .retry job =>
    if held.account.authorizationGeneration ≤ job.held.account.authorizationGeneration then
      s.resume process job
    else s.intend process { job with held, retried := true }
  | .apply => s.goOn process (.configuring (some held))

/-- `find`, from the snapshot on. -/
def snapshot (s : State) (process : ℕ) (held : Held) (purpose : Purpose) :
    Option Snapshot → State
  | some snapshot =>
    let account := held.account.applySnapshot snapshot
    (s.persistSnapshotState account).found process { held with account } purpose
  | none => s.found process held purpose

/-- `configuration` returns: a pass begins, or `applyEffectiveProxy` goes on. -/
def configured (held : Option Held) (config : Configuration) : State :=
  match held with
  | none => s.goOn process (.pass config [])
  | some held =>
    let job : Job := { later := none, held, config }
    if held.account.lifecycle ≠ .active then s.intend process job
    else s.goOn process (.commanding job .updateProxy)

def send (job : Job) (kind : Kind) : State :=
  match command job.held.account job.config kind with
  | some command =>
    { s.goOn process (.commanded job command) with commands := s.commands ++ [command] }
  | none => s.throw process job "configuration.missing"

def answer (job : Job) (sent : Command) : Except String Snapshot → State
  | .ok data => s.goOn process (.confirming job sent data)
  | .error errorCode =>
    match sent.kind with
    | .remove =>
      if errorCode = "account.not_found" ∨ errorCode = "account.gone" then
        s.goOn process (.confirming job sent
          { appliedRevision := some job.held.account.desiredRevision, completed := true })
      else s.throw process job errorCode
    | .logout _ =>
      if errorCode = "account.not_found" then s.goOn process (.abandoning job)
      else s.throw process job errorCode
    | .provision _ => s.throw process job errorCode
    | .updateProxy => s.drop process

/-- A logout that the runtime knows nothing of is given up, and the account provisioned. -/
def abandon (job : Job) (operation : Uuid) : State :=
  let s := s.mutate job.held.account.id fun current =>
    current.abandonLogout job.held.account operation
  match s.find? job.held.account.id with
  | none => s.resume process job
  | some account =>
    if account.lifecycle = .provisioning then
      s.goOn process (.commanding { job with held := s.hold account } (.provision false))
    else s.resume process job

def confirm (job : Job) (sent : Command) (data : Snapshot) : State :=
  let expected := job.held.account
  let confirmed := match s.find? expected.id with
    | some current =>
      if current.confirms expected data ∧ data.appliedRevision = some expected.desiredRevision then
        s.confirmed ++ [(current.confirm expected data, sent)]
      else s.confirmed
    | none => s.confirmed
  { s.mutate expected.id fun current => current.confirm expected data with confirmed }.resume
    process job

end State

/-- Everything that can happen. An event for a task that is not there changes nothing. -/
def step (s : State) : Event → State
  | .create id storageGeneration effectiveConfigId proxy =>
    s.create id storageGeneration effectiveConfigId proxy
  | .updateProxy id revision proxy effectiveConfigId operation =>
    s.updateProxy id revision proxy effectiveConfigId operation
  | .logout id operation => s.mutate id fun a => ((a.logout operation).toOption).getD a
  | .remove id operation => s.mutate id fun a => a.remove operation
  | .settings revision apiId apiHash effectiveConfigId operation =>
    s.update revision apiId apiHash effectiveConfigId operation
  | .activate profile effectiveConfigId operation => s.activate profile effectiveConfigId operation
  | .configure =>
    { s with settings.configurationRevision := s.settings.configurationRevision + 1 }
  | .createProfile id profile =>
    if (s.profiles id).isSome then s
    else { s with profiles := Function.update s.profiles id (some profile) }
  | .deleteProfile id =>
    if s.settings.activeProxyProfileId = some id then s
    else { s with profiles := Function.update s.profiles id none }
  | .run => s.begin (.configuring none)
  | .applyEffectiveProxy id => s.begin (.finding id .apply)
  | .readSettings process =>
    match s.tasks process with
    | some (.configuring held) => s.goOn process (.settingsRead held s.settings)
    | _ => s
  | .readProfile process =>
    match s.tasks process with
    | some (.settingsRead held settings) =>
      s.configured process held
        (configuration settings (settings.activeProxyProfileId.bind s.profiles))
    | _ => s
  | .batch process ids =>
    match s.tasks process with
    | some (.pass config []) =>
      s.goOn process (.pass config (((ids.filterMap s.find?).filter fun a =>
        a.lifecycle ≠ .removed).map s.hold))
    | _ => s
  | .next process =>
    match s.tasks process with
    | some (.pass config (held :: batch)) =>
      s.intend process { later := some (config, batch), held, config }
    | _ => s
  | .skip process =>
    match s.tasks process with
    | some (.pass config (_ :: batch)) => s.goOn process (.pass config batch)
    | some (.pass _ []) => s.drop process
    | _ => s
  | .find process =>
    match s.tasks process with
    | some (.finding id purpose) => s.find process id purpose
    | _ => s
  | .snapshot process snapshot =>
    match s.tasks process with
    | some (.found held purpose) => s.snapshot process held purpose snapshot
    | _ => s
  | .command process =>
    match s.tasks process with
    | some (.commanding job kind) => s.send process job kind
    | _ => s
  | .answer process answer =>
    match s.tasks process with
    | some (.commanded job sent) => s.answer process job sent answer
    | _ => s
  | .abandon process operation =>
    match s.tasks process with
    | some (.abandoning job) => s.abandon process job operation
    | _ => s
  | .confirm process =>
    match s.tasks process with
    | some (.confirming job sent data) => s.confirm process job sent data
    | _ => s
  | .crash process => s.drop process

end Api.Reconcile
