import Mathlib.Data.List.Lex
import TeleBezel.Lib.Fields
import TeleBezel.Lib.OrderedMap
import TeleBezel.Lib.Transition

/-!
# The interests in chats

`InterestLeaseManager` of `backend-tdlib/src/interest_lease_manager.cpp`, with the lease keys that
`http_server.cpp` builds. An account has its leases by key, a count for each chat, and what is known of
whether TDLib has the chat open. The thread takes one transition at a time; while TDLib is asked for it,
anything can happen. Waiting for a transition changes nothing and is left out. Times are in nanoseconds.
-/

namespace Runtime.Interests

open Fields

/-! ### The keys of leases -/

def validUuid (value : List Char) : Bool :=
  value.length = 36 && value.zipIdx.all fun (c, index) =>
    if index ∈ [8, 13, 18, 23] then c = '-'
    else if index = 14 then '1' ≤ c && c ≤ '8'
    else if index = 19 then c ∈ ['8', '9', 'a', 'b']
    else ('0' ≤ c && c ≤ '9') || ('a' ≤ c && c ≤ 'f')

def keyPrefix (type id : List Char) : List Char := field ':' type (field ':' id [])

def principalPrefix (type id : List Char) : Option (List Char) :=
  if type ∈ ["device".toList, "api_client".toList, "maintenance".toList] ∧ validUuid id then
    some (keyPrefix type id)
  else none

def leaseKey (type id viewId : List Char) (chatId : ℤ) : Option (List Char) :=
  if validUuid viewId then (principalPrefix type id).map (· ++ field ':' viewId (decimal chatId)) else none

def principalOf (key : List Char) : List Char :=
  match key.dropWhile (· ≠ ':') with
  | [] => key
  | _ :: rest =>
    match rest.dropWhile (· ≠ ':') with
    | [] => key
    | _ :: _ => field ':' (key.takeWhile (· ≠ ':')) (field ':' (rest.takeWhile (· ≠ ':')) [])

/-! ### The interests of an account -/

inductive Phase
  | closed
  | opening
  | open
  | closing
deriving DecidableEq

structure InterestChatState where
  phase : Phase := .closed
  transition : ℕ := 0
  failedTransition : ℕ := 0
  unknownTransition : ℕ := 0
  closeFailures : ℕ := 0
  retryAt : ℕ := 0

structure Lease where
  chatId : ℤ
  expires : ℕ

structure Session where
  reconciled : Bool := false
  lifecycle : String := "provisioning"
  clientId : ℕ := 0
  runtimeEpoch : List Char := []
  closed : Bool := false
  tombstone : Bool := false

/-- `AccountState`, as far as the interests use it. -/
structure AccountState extends Session where
  interests : OrderedMap (List Char) Lease := {}
  interestCounts : OrderedMap ℤ ℕ := {}
  interestStates : OrderedMap ℤ InterestChatState := {}

def seconds (n : ℕ) : ℕ := n * 1000000000

def releaseCount (counts : OrderedMap ℤ ℕ) (chatId : ℤ) : OrderedMap ℤ ℕ :=
  match counts.find chatId with
  | none => counts
  | some count => if 1 < count then counts.put chatId (count - 1) else counts.erase chatId

def desiredOpen (counts : OrderedMap ℤ ℕ) (chatId : ℤ) : Bool :=
  (counts.find chatId).any fun count => 0 < count

namespace AccountState

def releaseWhere (account : AccountState) (kind : List Char × Lease → Bool) : AccountState :=
  { account with
    interests := account.interests.filter fun entry => !kind entry
    interestCounts := (account.interests.filter kind).entries.foldl
      (fun counts entry => releaseCount counts entry.2.chatId) account.interestCounts }

def expireLeases (account : AccountState) (now : ℕ) : AccountState :=
  account.releaseWhere fun entry => entry.2.expires ≤ now

def forgetSettled (account : AccountState) : AccountState :=
  { account with
    interestStates := account.interestStates.filter fun entry =>
      !(entry.2.phase = .closed && !desiredOpen account.interestCounts entry.1) }

/-- `close_account` and `reset_session`, of the interests. -/
def clear (account : AccountState) : AccountState :=
  { account with interests := {}, interestCounts := {}, interestStates := {} }

end AccountState

/-- The answer to `set_interest`. -/
inductive Answer
  | error (code : String) (status : ℕ)
  | interest (active : Bool) (expiresIn : ℕ)
  /-- It waits for the transition. -/
  | waiting

variable (account : AccountState)

/-- What comes after the leases in `set_interest`: the state of the chat is tracked. -/
def track (chatId : ℤ) (active awaitTransition : Bool) :
    AccountState × Answer :=
  let answer : Answer := if awaitTransition then .waiting else .interest active (if active then 90 else 0)
  match account.interestStates.find chatId with
  | some _ => (account, answer)
  | none =>
    if active then
      ({ account with interestStates := account.interestStates.put chatId {} }, answer)
    else (account, .interest false 0)

/-- `set_interest`, for an account that is there. -/
def setLease (chatId : ℤ) (key : List Char) (active awaitTransition : Bool)
    (now : ℕ) : AccountState × Answer :=
  let account := account.expireLeases now
  let renewed := account.interests.put key ⟨chatId, now + seconds 90⟩
  match account.interests.find key, active with
  | none, true =>
    if 20 ≤ account.interests.size then (account, .error "interest.limit_reached" 429)
    else if 4 ≤ account.interests.count fun entry => (principalOf key).isPrefixOf entry.1 then
      (account, .error "interest.limit_reached" 429)
    else
      let count := (account.interestCounts.find chatId).getD 0
      track { account with
        interests := renewed
        interestCounts := account.interestCounts.put chatId (count + 1) } chatId active awaitTransition
  | some _, true => track { account with interests := renewed } chatId active awaitTransition
  | some lease, false =>
    track { account with
      interests := account.interests.erase key
      interestCounts := releaseCount account.interestCounts lease.chatId } chatId active awaitTransition
  | none, false => track account chatId active awaitTransition

/-! ### The accounts -/

structure Transition where
  uuid : List Char
  epoch : List Char
  client : ℕ
  chatId : ℤ
  number : ℕ
  opening : Bool

inductive Outcome
  | succeeded
  | failed
  | unknown

structure State where
  accounts : OrderedMap (List Char) AccountState := {}
  rotationCursor : List Char := []
  selected : Option Transition := none

variable (s : State)

def setInterest (uuid : List Char) (chatId : ℤ) (key : List Char)
    (active awaitTransition : Bool) (now : ℕ) : State × Answer :=
  match s.accounts.find uuid with
  | none => (s, .error "account.not_found" 404)
  | some account =>
    if ¬ account.reconciled ∨ account.lifecycle ≠ "active" ∨ account.clientId = 0 then
      (s, .error "account.not_found" 404)
    else
      let (account, answer) := setLease account chatId key active awaitTransition now
      ({ s with accounts := s.accounts.put uuid account }, answer)

/-- The leases of a principal in `release_interests`. -/
def ofPrincipal (type id : List Char) (entry : List Char × Lease) : Bool :=
  (keyPrefix type id).isPrefixOf entry.1

/-- `release_interests`, and how many leases it released. -/
def releaseInterests (type id : List Char) : State × ℕ :=
  ({ s with accounts := s.accounts.map fun account => account.releaseWhere (ofPrincipal type id) },
    s.accounts.total fun account => (account.interests.filter (ofPrincipal type id)).size)

/-- The loop of `run_once` over the chats of an account: chats that are in use and not tracked are open. -/
def trackOpen : AccountState :=
  { account with
    interestStates := account.interestCounts.entries.foldl
      (fun states entry =>
        if 0 < entry.2 ∧ states.find entry.1 = none then states.put entry.1 { phase := .open }
        else states)
      account.interestStates }

/-- Whether a chat is to be opened, or closed. -/
def opens (chatId : ℤ) (state : InterestChatState) : Bool :=
  desiredOpen account.interestCounts chatId && state.phase = .closed

@[inherit_doc opens]
def closes (chatId : ℤ) (state : InterestChatState) : Bool :=
  !desiredOpen account.interestCounts chatId && state.phase = .open

/-- What `run_once` does to an account that it comes to, with the transition it selects. -/
def visit (uuid : List Char) (account : AccountState) (now : ℕ) : AccountState × Option Transition :=
  let account := ((trackOpen account).expireLeases now).forgetSettled
  if ¬ account.reconciled ∨ account.lifecycle ≠ "active" ∨ account.clientId = 0 ∨ account.closed ∨
      account.tombstone then (account, none)
  else
    match account.interestStates.entries.find? fun (chatId, state) =>
        (opens account chatId state || closes account chatId state) && state.retryAt ≤ now with
    | none => (account, none)
    | some (chatId, state) =>
      let opening := opens account chatId state
      let number := state.transition + 1
      ({ account with
          interestStates := account.interestStates.put chatId
            { state with phase := if opening then .opening else .closing, transition := number } },
        some ⟨uuid, account.runtimeEpoch, account.clientId, chatId, number, opening⟩)

/-- The loop of `run_once` over the accounts, in the order of the rotation. -/
def scan (now : ℕ) : List (List Char) → State → State
  | [], s => s
  | uuid :: order, s =>
    match s.accounts.find uuid with
    | none => scan now order s
    | some account =>
      match visit uuid account now with
      | (account, none) => scan now order { s with accounts := s.accounts.put uuid account }
      | (account, some transition) =>
        { accounts := s.accounts.put uuid account, rotationCursor := uuid, selected := some transition }

/-- `run_once`, up to its request. -/
def selectTransition (now : ℕ) : State :=
  match s.selected with
  | some _ => s
  | none =>
    let uuids := s.accounts.entries.map Prod.fst
    scan now (uuids.filter (fun uuid => s.rotationCursor < uuid) ++
      uuids.filter fun uuid => uuid ≤ s.rotationCursor) s

def settleChat (transition : Transition) (state : InterestChatState)
    (outcome : Outcome) (now : ℕ) : AccountState :=
  let put (state : InterestChatState) : AccountState :=
    { account with interestStates := account.interestStates.put transition.chatId state }
  match outcome, transition.opening with
  | .succeeded, opening =>
    put { state with phase := if opening then .open else .closed, closeFailures := 0 }
  | .unknown, _ =>
    put { state with
      phase := .open
      unknownTransition := transition.number
      retryAt := now + seconds 1 }
  | .failed, true =>
    { put { state with
        phase := .closed
        failedTransition := transition.number
        retryAt := now + seconds 1 } with
      interests := account.interests.filter fun entry => entry.2.chatId ≠ transition.chatId
      interestCounts := account.interestCounts.erase transition.chatId }
  | .failed, false =>
    let closeFailures := state.closeFailures + 1
    put { state with
      failedTransition := transition.number
      retryAt := now + seconds 1
      closeFailures
      phase := if 3 ≤ closeFailures then .closed else .open }

/-- `run_once`, from the outcome of its request on. -/
def settle (outcome : Outcome) (now : ℕ) : State :=
  match s.selected with
  | none => s
  | some transition =>
    let s := { s with selected := none }
    match s.accounts.find transition.uuid with
    | none => s
    | some account =>
      if account.lifecycle ≠ "active" ∨ account.clientId ≠ transition.client ∨
          account.runtimeEpoch ≠ transition.epoch then s
      else
        match account.interestStates.find transition.chatId with
        | none => s
        | some state =>
          if state.transition ≠ transition.number then s
          else { s with
            accounts := s.accounts.put transition.uuid
              (settleChat account transition state outcome now) }

inductive Event
  /-- A request for a lease: its principal, its view and its chat. -/
  | setInterest (uuid type id viewId : List Char) (chatId : ℤ) (active awaitTransition : Bool) (now : ℕ)
  /-- A request to release the leases of a principal. -/
  | releaseInterests (type id : List Char)
  | selectTransition (now : ℕ)
  | settle (outcome : Outcome) (now : ℕ)
  /-- An account appears, or another service changes it. -/
  | account (uuid : List Char) (session : Session)
  /-- An account is closed, or its session is reset. -/
  | clear (uuid : List Char)

/-- Everything that can happen to the interests. A request that the routes refuse changes nothing. -/
def step : Event → State
  | .setInterest uuid type id viewId chatId active awaitTransition now =>
    match leaseKey type id viewId chatId with
    | none => s
    | some key => (setInterest s uuid chatId key active awaitTransition now).1
  | .releaseInterests type id =>
    if type ∈ ["device".toList, "api_client".toList, "maintenance".toList, "owner".toList] ∧
        validUuid id then (releaseInterests s type id).1
    else s
  | .selectTransition now => selectTransition s now
  | .settle outcome now => settle s outcome now
  | .account uuid session =>
    let account := (s.accounts.find uuid).getD {}
    { s with accounts := s.accounts.put uuid { account with toSession := session } }
  | .clear uuid =>
    match s.accounts.find uuid with
    | none => s
    | some account => { s with accounts := s.accounts.put uuid account.clear }

end Runtime.Interests
