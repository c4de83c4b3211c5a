import Mathlib.Tactic.Ring

/-!
# The accounts of the API

A row of `telegram_accounts` as far as a command or a send is made of it, and what
`AccountStatePolicy` of `backend-api/app` does to it. What only the owner is shown of an account
(its label, the copies of its proxy's address, the states the runtime last reported) is left out.
-/

namespace Api

/-- A `uuid`; its letters are immaterial. -/
abbrev Uuid := ℕ

structure ApiException where
  errorCode : String
  status : ℕ
  retryAfter : Option ℤ := none
deriving DecidableEq

inductive AccountLifecycle
  | provisioning
  | active
  | logoutPending
  | removing
  | removed
deriving DecidableEq

inductive ProxyMode
  | inherit
  | direct
  | socks5
  | http
  | mtproto
deriving DecidableEq

structure Proxy where
  id : Option Uuid := none
  mode : ProxyMode
  host : Option String := none
  port : Option ℕ := none
  httpOnly : Option Bool := none
  username : Option String := none
  password : Option String := none
  secret : Option String := none
  version : Option ℕ := none
deriving DecidableEq

/-- The keys `normalizedProxy` lets no inherited proxy have. -/
def Proxy.hasDetails (proxy : Proxy) : Bool :=
  proxy.id.isSome || proxy.host.isSome || proxy.port.isSome || proxy.httpOnly.isSome ||
    proxy.username.isSome || proxy.password.isSome || proxy.secret.isSome

/-- `normalizedProxy`, of a request whose mode is one of the modes. -/
def normalizedProxy (proxy : Proxy) : Except ApiException Proxy := do
  let invalid : ApiException := { errorCode := "configuration.invalid", status := 422 }
  if proxy.mode ≠ .inherit ∧ proxy.id = none then throw invalid
  if proxy.mode = .inherit ∧ proxy.hasDetails then throw invalid
  if proxy.password.getD "" ≠ "" ∧ proxy.username.getD "" = "" then throw invalid
  return { proxy with
    id := if proxy.mode = .inherit then none else proxy.id
    httpOnly := some (proxy.mode = .http && proxy.httpOnly = some true)
    version := none }

/-- A row of `telegram_accounts`. -/
structure AccountData where
  id : Uuid
  storageGeneration : Uuid
  lifecycle : AccountLifecycle := .provisioning
  desiredRevision : ℕ := 1
  appliedRevision : Option ℕ := none
  proxyId : Option Uuid := none
  proxyConfig : Option Proxy := none
  proxyConfigVersion : ℕ := 0
  operationId : Option Uuid := none
  logoutOperationId : Option Uuid := none
  authorizationGeneration : ℕ := 1
  effectiveConfigId : Uuid
deriving DecidableEq

structure Snapshot where
  generation : Option Uuid := none
  authorizationGeneration : Option ℕ := none
  appliedRevision : Option ℕ := none
  effectiveConfigId : Option Uuid := none
  operationId : Option Uuid := none
  completed : Bool := false
deriving DecidableEq

namespace AccountData

variable (account : AccountData)

def writable : Except ApiException Unit :=
  match account.lifecycle with
  | .removed => throw { errorCode := "account.gone", status := 410 }
  | .removing => throw { errorCode := "operation.conflict", status := 409 }
  | _ => return ()

def logout (operation : Uuid) : Except ApiException AccountData := do
  account.writable
  if account.lifecycle = .logoutPending then return account
  return { account with
    lifecycle := .logoutPending
    desiredRevision := account.desiredRevision + 1
    authorizationGeneration := account.authorizationGeneration + 1
    logoutOperationId := some operation
    operationId := some operation }

def abandonLogout (current expected : AccountData) (operation : Uuid) : AccountData :=
  if current.lifecycle ≠ .logoutPending ∨ current.desiredRevision ≠ expected.desiredRevision ∨
      current.storageGeneration ≠ expected.storageGeneration then current
  else { current with
    lifecycle := .provisioning
    desiredRevision := current.desiredRevision + 1
    operationId := some operation }

def remove (operation : Uuid) : AccountData :=
  if account.lifecycle = .removing ∨ account.lifecycle = .removed then account
  else { account with
    lifecycle := .removing
    desiredRevision := account.desiredRevision + 1
    operationId := some operation }

def updateProxy (revision : ℕ) (proxy : Proxy)
    (effectiveConfigId operation : Uuid) : Except ApiException AccountData := do
  account.writable
  if account.lifecycle = .logoutPending ∨ account.desiredRevision ≠ revision then
    throw { errorCode := "operation.conflict", status := 409 }
  let inherited := proxy.mode = .inherit
  return { account with
    proxyId := proxy.id
    proxyConfig := if inherited then none else some proxy
    proxyConfigVersion := if inherited then 0 else account.proxyConfigVersion + 1
    desiredRevision := account.desiredRevision + 1
    effectiveConfigId
    operationId := some operation }

def applySnapshot (snapshot : Snapshot) : AccountData :=
  if snapshot.generation.any (· ≠ account.storageGeneration) then account
  else
    let account := { account with
      authorizationGeneration :=
        max account.authorizationGeneration (snapshot.authorizationGeneration.getD 0) }
    if snapshot.appliedRevision = some account.desiredRevision ∧
        snapshot.effectiveConfigId = some account.effectiveConfigId then
      { account with
        appliedRevision := snapshot.appliedRevision
        operationId := if snapshot.operationId = none then none else account.operationId }
    else account

/-- Whether `confirm` takes an answer to the command for a row. -/
def confirms (current expected : AccountData) (data : Snapshot) : Bool :=
  current.lifecycle ≠ .removed && current.desiredRevision = expected.desiredRevision &&
    current.storageGeneration = expected.storageGeneration &&
    current.effectiveConfigId = expected.effectiveConfigId &&
    data.effectiveConfigId.all (· = current.effectiveConfigId)

def confirm (current expected : AccountData) (data : Snapshot) : AccountData :=
  if ¬ current.confirms expected data then current
  else
    let changes := current.applySnapshot data
    let changes := if data.appliedRevision = some expected.desiredRevision then
        { changes with appliedRevision := data.appliedRevision }
      else changes
    if data.completed ∧ current.lifecycle = .removing then
      { current with
        proxyId := none
        proxyConfig := none
        proxyConfigVersion := 0
        lifecycle := .removed
        operationId := none
        appliedRevision := changes.appliedRevision }
    else if data.completed ∧ current.lifecycle = .logoutPending then
      { changes with lifecycle := .active, operationId := none }
    else if current.lifecycle = .provisioning ∧
        changes.appliedRevision = some current.desiredRevision then
      { changes with lifecycle := .active, operationId := none }
    else if data.completed ∧ current.lifecycle = .active then { changes with operationId := none }
    else changes

end AccountData

end Api
