import Mathlib.Data.List.Basic
import Mathlib.Data.Nat.Digits.Defs
import Mathlib.Tactic.Ring

/-!
# The entries of the phone's composer

The records `app/src/pkjs/lib/compose.js` keeps for every send: what an entry is made of, what
of it goes to storage, what an answer of the API does to it, and the record of it that the
watch is sent. Strings are lists of UTF-16 code units, as in the language of the source.
-/

namespace Phone

abbrev JsString := List ℕ

/-- `[0-9]`. -/
def isDigit (unit : ℕ) : Bool := 48 ≤ unit && unit ≤ 57

/-- `[0-9A-Fa-f]`. -/
def isHex (unit : ℕ) : Bool :=
  isDigit unit || (65 ≤ unit && unit ≤ 70) || (97 ≤ unit && unit ≤ 102)

def accountPattern (text : JsString) : Bool :=
  text.length = 36 && text.zipIdx.all fun (unit, i) =>
    if i = 8 ∨ i = 13 ∨ i = 18 ∨ i = 23 then unit = 45 else isHex unit

def messagePattern : JsString → Bool
  | [] => false
  | unit :: rest => 49 ≤ unit && unit ≤ 57 && rest.length ≤ 18 && rest.all isDigit

def chatPattern : JsString → Bool
  | 45 :: rest => messagePattern rest
  | text => messagePattern text

def entryTtlMs : ℤ := 3600000

def postWindowMs : ℤ := 20000

def postAttempts : ℕ := 3

def maxTextUnits : ℕ := 4096

def previewChars : ℕ := 40

/-- `utf8Bytes`: a leading surrogate that something follows counts for both. -/
def utf8Bytes : JsString → ℕ
  | [] => 0
  | [unit] => if unit < 0x80 then 1 else if unit < 0x800 then 2 else 3
  | unit :: next :: rest =>
    if unit < 0x80 then 1 + utf8Bytes (next :: rest)
    else if unit < 0x800 then 2 + utf8Bytes (next :: rest)
    else if 0xD800 ≤ unit ∧ unit ≤ 0xDBFF then 4 + utf8Bytes rest
    else 3 + utf8Bytes (next :: rest)

structure Settings where
  address : JsString
  ssl : Bool
  token : JsString
deriving DecidableEq

/-- `fingerprint`, before its digits are written in base sixteen. -/
def fingerprint (value : Settings) : ℕ :=
  let source := value.address ++ 124 :: (if value.ssl then 49 else 48) :: 124 :: value.token
  source.foldl (fun hash unit => hash * 33 % 2 ^ 32 ^^^ unit) 5381

/-- The digits of `toString(36)`. -/
def base36 (value : ℤ) : JsString :=
  let digits := (Nat.digits 36 value.natAbs).reverse.map fun d => if d < 10 then 48 + d else 87 + d
  (if value < 0 then [45] else []) ++ if digits = [] then [48] else digits

/-- `newKey`, on the clock and twenty draws from the alphabet. -/
def newKey (now : ℤ) (random : List ℕ) : JsString :=
  [116, 98, 115, 45] ++ base36 now ++ [45] ++
    random.map fun d => if d < 10 then 48 + d else 87 + d

inductive SendState
  | dispatching
  | pending
  | sent
  | failed
  | unknown
deriving DecidableEq, Inhabited

inductive ApiCode
  | messageSendForbidden
  | messageReplyUnavailable
  | messageTextTooLong
  | messageSendRateLimited
  | messageSendFailed
  | rateLimitExceeded
  | chatNotFound
  | authorizationInvalidState
  | operationOutcomeUnknown
  | operationConflict
  | serviceBusy
  | serviceStopping
  | serviceTdlibUnavailable
  | authUnauthorized
  | authInsufficientScope
  | accountNotFound
  | accountGone
  | requestInvalid
  | requestInvalidIdempotencyKey
  | responseInvalid
  | other (text : JsString)
deriving DecidableEq

/-- `/^message\./`. -/
def ApiCode.isMessage : ApiCode → Bool
  | messageSendForbidden | messageReplyUnavailable | messageTextTooLong
  | messageSendRateLimited | messageSendFailed => true
  | other text => [109, 101, 115, 115, 97, 103, 101, 46].isPrefixOf text
  | _ => false

/-- `error || null`: the empty text counts as no error. -/
def truthy : Option ApiCode → Option ApiCode
  | some (.other []) => none
  | error => error

/-- `protocol.result`, as far as the composer answers with it. -/
inductive ResultCode
  | ok
  | configMissing
  | backendUnavailable
  | apiUnauthorized
  | protocolError
  | accountNeedsLogin
  | accountGone
  | chatNotFound
  | busy
  | cursorLost
  | wrongTokenType
  | sendForbidden
  | replyUnavailable
  | textTooLong
  | draftLost
  | sendUnknown
  | sendRateLimited
deriving DecidableEq

structure Identity where
  draftId : ℕ
  attempt : ℕ
  key : JsString
  account : JsString
  chat : JsString
  reply : JsString
  title : JsString
  text : JsString
  created : ℤ
  fingerprint : ℕ
deriving DecidableEq, Inhabited

/-- What `persist` writes of an entry. -/
structure Stored extends Identity where
  state : SendState := .dispatching
  operationId : Option JsString := none
  error : Option ApiCode := none
  retryAfter : ℤ := 0
  retryable : Bool := false
  replyDropped : Bool := false
  messageId : Option JsString := none
  tracked : ℤ
deriving DecidableEq, Inhabited

structure Entry extends Stored where
  waiters : List ℕ := []
  checking : Bool := false
  discarded : Bool := false
  restored : Bool := false
deriving Inhabited

/-- An operation of the API, in an answer or in a `send_changed` event. A state outside those
of `SendState` is `none`. -/
structure Operation where
  id : Option JsString := none
  operationId : Option JsString := none
  state : Option SendState
  errorCode : Option ApiCode := none
  errorRetryAfter : Option ℤ := none
  retryable : Bool := false
  replyDropped : Bool := false
  messageId : Option JsString := none
deriving DecidableEq

inductive ApiResult
  | ok (operation : Option Operation)
  | error (status : ℕ) (code : Option ApiCode) (retryAfter : ℕ)

/-- `SEND_STATE` for the watch. -/
structure SendRecord where
  draftId : ℕ
  state : SendState
  code : ResultCode
  retryAfter : ℤ
  retryable : Bool
  replyDropped : Bool
  restored : Bool
  account : JsString
  chat : JsString
  message : JsString
  title : JsString
  preview : JsString
deriving DecidableEq

def resultCode (error : Option ApiCode) : ResultCode :=
  match truthy error with
  | some .messageSendForbidden => .sendForbidden
  | some .messageReplyUnavailable => .replyUnavailable
  | some .messageTextTooLong => .textTooLong
  | some .messageSendRateLimited | some .rateLimitExceeded => .sendRateLimited
  | some .chatNotFound => .chatNotFound
  | some .authorizationInvalidState => .accountNeedsLogin
  | some .operationOutcomeUnknown => .sendUnknown
  | some .serviceBusy | some .serviceStopping | some .serviceTdlibUnavailable => .busy
  | some _ => .backendUnavailable
  | none => .ok

/-- `stateCode`: the watch is told of a dispatch as of a pending send. -/
def stateCode : SendState → SendState
  | .dispatching => .pending
  | state => state

def record (entry : Entry) (restored : Bool) : SendRecord where
  draftId := entry.draftId
  state := stateCode entry.state
  code :=
    if entry.state = .unknown then .sendUnknown
    else if entry.state = .failed then resultCode entry.error else .ok
  retryAfter := entry.retryAfter
  retryable := entry.retryable
  replyDropped := entry.replyDropped
  restored := restored
  account := entry.account
  chat := entry.chat
  message := entry.messageId.getD []
  title := entry.title
  preview := entry.text.take previewChars

/-- `fatal`: the result code of an error that ends an attempt for good. -/
def fatal (status : ℕ) (code : Option ApiCode) : Option ResultCode :=
  if status = 401 ∨ code = some .authUnauthorized then some .apiUnauthorized
  else if code = some .authInsufficientScope ∨
      (status = 403 ∧ ¬ code.any ApiCode.isMessage) then some .wrongTokenType
  else if code = some .accountNotFound ∨ code = some .accountGone then some .accountGone
  else if code = some .authorizationInvalidState then some .accountNeedsLogin
  else if code = some .chatNotFound then some .chatNotFound
  else if code = some .messageTextTooLong then some .textTooLong
  else if code = some .operationConflict ∨ code = some .requestInvalid ∨
      code = some .requestInvalidIdempotencyKey then some .protocolError
  else none

/-- `lost`: the API may have taken the request whose answer this is. -/
def lost (status : ℕ) (code : Option ApiCode) : Bool :=
  status = 0 || status = 502 || status = 503 || status = 504 || code = some .responseInvalid

namespace Entry

variable (entry : Entry)

/-- `entry.operationId` holds: neither absent nor empty. -/
def known : Bool := entry.operationId.any fun id => id ≠ []

variable (operation : Operation)

def taken : Option JsString :=
  (operation.operationId.or operation.id).or entry.operationId

/-- `apply` once the state of the operation is accepted. -/
def settled (state : SendState) : Entry :=
  { entry with
    operationId := entry.taken operation
    state := state
    error := operation.errorCode.or
      (if state = .unknown then some .operationOutcomeUnknown else none)
    retryAfter := operation.errorRetryAfter.getD 0
    retryable := operation.retryable
    replyDropped := operation.replyDropped
    messageId := operation.messageId.or entry.messageId }

/-- The state `apply` takes over, unless it returns before: the list of accepted states leaves
out the one the API itself starts in, and a settled entry keeps its state. -/
def accepted : Option SendState :=
  operation.state.filter fun state =>
    state ≠ .dispatching ∧ ¬ (entry.state = .sent ∨ (entry.state = .failed ∧ state ≠ .failed))

def apply : Entry :=
  match entry.accepted operation with
  | none => { entry with operationId := entry.taken operation }
  | some state => entry.settled operation state

/-- What `apply` answers: whether the state or the error has changed. -/
def changedBy : Bool :=
  (entry.apply operation).state ≠ entry.state ∨
    truthy (entry.apply operation).error ≠ truthy entry.error

/-- `apply` on `result.data.operation`, which may be missing. -/
def applyAnswer : Option Operation → Entry
  | none => entry
  | some operation => entry.apply operation

/-- The branches of `dispatch` and `check` for an outcome nobody knows. -/
def setUnknown : Entry :=
  { entry with state := .unknown, error := some .operationOutcomeUnknown }

/-- The branch of `dispatch` for the status 429. -/
def setRateLimited (retryAfter : ℕ) : Entry :=
  { entry with
    state := .failed
    error := some .messageSendRateLimited
    retryAfter := if retryAfter = 0 then 5 else retryAfter
    retryable := true }

/-- The last branch of `dispatch`. -/
def setRefused (status : ℕ) (code : Option ApiCode) : Entry :=
  let error := (truthy code).getD .messageSendFailed
  { entry with
    state := .failed
    error := some error
    retryable := fatal status code = none ∧ error ≠ .messageSendForbidden ∧
      error ≠ .messageReplyUnavailable }

/-- `entry.waiters = waiters`. -/
def setWaiters (waiters : List ℕ) : Entry := { entry with waiters := waiters }

/-- `entry.tracked = now()`. -/
def setTracked (now : ℤ) : Entry := { entry with tracked := now }

/-- `entry.checking = checking`. -/
def setChecking (checking : Bool) : Entry := { entry with checking := checking }

/-- `entry.discarded = true`. -/
def discard : Entry := { entry with discarded := true }

/-- `persist` keeps an entry that is neither sent nor discarded nor too old. -/
def kept (now : ℤ) : Bool :=
  entry.state ≠ .sent && !entry.discarded && now - entry.created < entryTtlMs

/-- What `persist` writes of an entry. -/
def stored : Stored :=
  { entry.toStored with
    operationId := if entry.known then entry.operationId else none
    error := truthy entry.error
    messageId := if entry.messageId = some [] then none else entry.messageId
    tracked := if entry.tracked = 0 then entry.created else entry.tracked }

end Entry

variable (stored : Stored)

/-- `load` restores a stored entry of the same settings that is not sent and not too old. -/
def Stored.restorable (mark : Option ℕ) (now : ℤ) : Bool :=
  some stored.fingerprint = mark && now - stored.created < entryTtlMs && stored.state ≠ .sent &&
    accountPattern stored.account && chatPattern stored.chat

/-- The entry `load` makes: a dispatch that was cut off is a send whose outcome is unknown. -/
def Stored.restore : Entry :=
  { stored with
    state := if stored.state = .dispatching then .unknown else stored.state
    restored := true }

section Entry

variable (entry : Entry)

@[simp] theorem Stored.waiters_restore : stored.restore.waiters = [] := rfl

theorem Stored.state_restore_ne : stored.restore.state ≠ .dispatching := by
  simp only [Stored.restore]
  split
  · exact SendState.noConfusion
  · assumption

variable (operation : Operation)

theorem Entry.apply_cases :
    entry.apply operation = { entry with operationId := entry.taken operation } ∨
      ∃ state, operation.state = some state ∧ state ≠ .dispatching ∧ entry.state ≠ .sent ∧
        entry.apply operation = entry.settled operation state := by
  unfold Entry.apply
  cases haccepted : entry.accepted operation with
  | none => exact .inl rfl
  | some state =>
    simp only [Entry.accepted, Option.filter_eq_some_iff, decide_eq_true_eq, not_or] at haccepted
    obtain ⟨hstate, hne, hsent, -⟩ := haccepted
    exact .inr ⟨state, hstate, hne, hsent, rfl⟩

@[simp] theorem Entry.toIdentity_apply :
    (entry.apply operation).toIdentity = entry.toIdentity := by
  obtain h | ⟨_, _, _, _, h⟩ := entry.apply_cases operation <;> rw [h]
  rfl

@[simp] theorem Entry.waiters_apply :
    (entry.apply operation).waiters = entry.waiters := by
  obtain h | ⟨_, _, _, _, h⟩ := entry.apply_cases operation <;> rw [h]
  rfl

@[simp] theorem Entry.discarded_apply :
    (entry.apply operation).discarded = entry.discarded := by
  obtain h | ⟨_, _, _, _, h⟩ := entry.apply_cases operation <;> rw [h]
  rfl

theorem Entry.state_apply_of_sent (h : entry.state = .sent) :
    (entry.apply operation).state = .sent := by
  obtain happly | ⟨_, _, _, hsent, _⟩ := entry.apply_cases operation
  · rw [happly]
    exact h
  · exact absurd h hsent

theorem Entry.state_apply :
    (entry.apply operation).state = (entry.accepted operation).getD entry.state := by
  unfold Entry.apply
  cases entry.accepted operation <;> rfl

theorem Entry.state_apply_dispatching :
    (entry.apply operation).state = .dispatching ↔
      entry.state = .dispatching ∧
        (operation.state = none ∨ operation.state = some .dispatching) := by
  rw [Entry.state_apply, Entry.accepted]
  cases operation.state with
  | none => simp
  | some state => cases entry.state <;> cases state <;> simp [Option.filter]

end Entry

end Phone
