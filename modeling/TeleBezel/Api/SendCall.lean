import Mathlib.Data.List.Infix
import TeleBezel.Api.MessageSend

/-!
# The call that dispatches a send

`TdlibGateway::sendMessage` of `backend-api/app`, and what `MessageSendService::send` records of its
outcome. The HTTP client either throws a `ConnectionException` or returns a response; a body is taken
as the value that `json_decode` makes of it, where the names of an object that are decimal numbers
are integers. Whether a request that failed had been transmitted stands beside its message.
-/

namespace Api

inductive ArrayKey
  | int (n : ℤ)
  | str (name : String)
deriving DecidableEq

/-- A value that `json_decode` makes of a body. -/
inductive Value
  | null
  | bool (b : Bool)
  | int (n : ℤ)
  | float (digits : String)
  | str (text : String)
  | array (entries : List (ArrayKey × Value))

variable (entries : List (ArrayKey × Value))

def entry (entries : List (ArrayKey × Value)) (name : String) : Option Value :=
  (entries.find? fun entry => entry.1 = .str name).map Prod.snd

structure Response where
  status : ℕ
  json : Value
  retryAfter : String := ""

/-- `successful` and `serverError` of a response. -/
def Response.successful (response : Response) : Prop :=
  200 ≤ response.status ∧ response.status < 300

@[inherit_doc Response.successful]
def Response.serverError (response : Response) : Prop := 500 ≤ response.status

instance (response : Response) : Decidable response.successful := inferInstanceAs (Decidable (_ ∧ _))

instance (response : Response) : Decidable response.serverError := inferInstanceAs (Decidable (_ ≤ _))

inductive Call
  | connectionException (message : String) (transmitted : Bool)
  | returned (response : Response)

/-- The time, and what `DateTimeImmutable::createFromFormat` makes of a date. -/
structure Clock where
  time : ℤ
  timestamp : String → Option ℤ

/-- `DEFAULT_RETRY_AFTER` and `MAXIMUM_RETRY_AFTER`. -/
def defaultRetryAfter : ℤ := 5

@[inherit_doc defaultRetryAfter]
def maximumRetryAfter : ℤ := 86400

variable (clock : Clock)

def retryAfter (header : String) : Option ℤ :=
  let header := trim header.toList
  if header = [] then none
  else if header.all Char.isDigit then
    some (min (header.foldl (fun n c => 10 * n + (c.toNat - '0'.toNat)) 0 : ℕ) maximumRetryAfter)
  else (clock.timestamp (String.ofList header)).map fun timestamp =>
    max 0 (min (timestamp - clock.time) maximumRetryAfter)

/-- `$safeCodes`. -/
def safeCodes : List String :=
  ["account.not_found", "account.gone", "authorization.invalid_code", "authorization.invalid_password",
    "authorization.code_expired", "authorization.invalid_state", "authorization.flood_wait",
    "authorization.unsupported_state", "authorization.unsupported_delivery", "operation.conflict",
    "operation.outcome_unknown", "storage.missing", "storage.identity_mismatch", "storage.corrupt",
    "storage.unsafe_path", "storage.invalid_key", "storage.io_error", "storage.volume_in_use",
    "configuration.missing", "configuration.invalid", "configuration.environment_mismatch",
    "service.busy", "service.stopping", "telegram.operation_failed", "proxy.unreachable",
    "chat.not_found", "message.not_found", "message.cache_miss", "cursor.invalid", "cursor.unusable",
    "sync.resync_required", "read.deadline", "interest.limit_reached"]

def tdlibUnavailable : ApiException := { errorCode := "service.tdlib_unavailable", status := 503 }

def outcomeUnknown : ApiException := { errorCode := "operation.outcome_unknown", status := 504 }

/-- `Values::object` of an array. -/
def objectOf :
    Except ApiException (List (ArrayKey × Value)) :=
  if entries.all fun entry => entry.1 matches .str _ then return entries
  else throw { errorCode := "request.invalid", status := 422 }

/-- The text under `code` in the `error` of an answer. -/
def errorCodeOf (json : List (ArrayKey × Value)) : Option String :=
  match entry json "error" with
  | some (.array error) =>
    match entry error "code" with
    | some (.str code) => some code
    | _ => none
  | _ => none

def safeError (response : Response) (code : String) : ApiException :=
  let status := if response.status ∈ [404, 409, 410, 422, 429, 502, 503, 504] then response.status else 502
  { errorCode := code
    status
    retryAfter := retryAfter clock response.retryAfter <|>
      if status = 429 then some defaultRetryAfter else none }

def decode (response : Response) : Except ApiException (List (ArrayKey × Value)) :=
  match response.json with
  | .array json =>
    if response.successful then
      match entry json "data" with
      | some (.array data) =>
        match objectOf data with
        | .ok data => .ok data
        | .error _ => .error tdlibUnavailable
      | _ => .error tdlibUnavailable
    else
      match errorCodeOf json with
      | some code =>
        if code ∈ safeCodes then .error (safeError clock response code) else .error tdlibUnavailable
      | none => .error tdlibUnavailable
  | _ => .error tdlibUnavailable

def neverReached (message : String) : Bool :=
  ["cURL error 6:", "cURL error 7:", "Connection refused", "Could not resolve host"].any fun text =>
    text.toList <:+: message.toList

/-- What `outcome` reads of an operation. -/
def operationOf : Operation :=
  let text : Option Value → Option String
    | some (.str text) => some text
    | _ => none
  let error := match entry entries "error" with
    | some (.array error) => error
    | _ => []
  { state := text (entry entries "state")
    messageId := text (entry entries "message_id")
    errorCode := text (entry error "code")
    retryAfter := match entry error "retry_after" with
      | some (.int n) => some n
      | _ => none
    retryable := entry entries "retryable" matches some (.bool true)
    replyDropped := entry entries "reply_dropped" matches some (.bool true) }

def sendMessage : Call → Except ApiException Operation
  | .connectionException message _ =>
    if neverReached message then .error tdlibUnavailable else .error outcomeUnknown
  | .returned response =>
    if response.serverError ∧ response.status ∉ [503, 504] then .error outcomeUnknown
    else (decode clock response).map operationOf

/-- What `send` records of what the gateway returns or throws. -/
def sendOutcome : Except ApiException Operation → Outcome
  | .error exception => failure exception
  | .ok operation => outcome operation

/-! ### What may have been dispatched -/

structure Response.Holds (response : Response) (operation : List (ArrayKey × Value)) : Prop where
  successful : response.successful
  data : ∃ json, response.json = .array json ∧ entry json "data" = some (.array operation)
  names : ∀ entry ∈ operation, ∃ name, entry.1 = .str name

/-- The runtime may have created and dispatched the operation: the request was transmitted, and the
answer is neither an error nor an operation that failed. -/
def Call.MayDispatch : Call → Prop
  | .connectionException _ transmitted => transmitted = true
  | .returned response => response.status < 400 ∧
    ¬ ∃ operation, response.Holds operation ∧ entry operation "state" = some (.str "failed")

/-- The messages of the HTTP client that name a failed resolution or connection are those of requests
that were not transmitted. -/
def Call.Honest : Call → Prop
  | .connectionException message transmitted => neverReached message = true → transmitted = false
  | .returned _ => True

/-- The answer is an error, or an operation that can be read, or it names its outcome unknown. -/
def Call.Understood : Call → Prop
  | .connectionException _ _ => True
  | .returned response => 400 ≤ response.status ∨ (∃ operation, response.Holds operation) ∨
    ¬ response.successful ∧ ∃ json, response.json = .array json ∧
      errorCodeOf json = some "operation.outcome_unknown"

theorem objectOf_eq_ok {entries data : List (ArrayKey × Value)} :
    objectOf entries = .ok data ↔
      data = entries ∧ ∀ entry ∈ entries, ∃ name, entry.1 = .str name := by
  have hnames : (entries.all fun entry => entry.1 matches .str _) = true ↔
      ∀ entry ∈ entries, ∃ name, entry.1 = .str name := by
    rw [List.all_eq_true]
    refine forall₂_congr fun entry _ => ?_
    cases entry.1 <;> simp
  unfold objectOf
  split_ifs with h
  · exact ⟨fun heq => ⟨(Except.ok.inj heq).symm, hnames.mp h⟩, fun heq => congrArg _ heq.1.symm⟩
  · exact ⟨nofun, fun heq => absurd (hnames.mpr heq.2) h⟩

theorem decode_eq_ok {clock : Clock} {response : Response} (operation : List (ArrayKey × Value)) :
    decode clock response = .ok operation ↔ response.Holds operation := by
  constructor
  · intro h
    unfold decode at h
    split at h
    · rename_i json hjson
      split_ifs at h with hsuccessful
      · split at h
        · rename_i data hdata
          split at h
          · rename_i data' hobject
            obtain ⟨rfl, hnames⟩ := objectOf_eq_ok.mp hobject
            cases h
            exact ⟨hsuccessful, ⟨json, hjson, hdata⟩, hnames⟩
          · cases h
        · cases h
      · split at h
        · split_ifs at h
        · cases h
    · cases h
  · rintro ⟨hsuccessful, ⟨json, hjson, hdata⟩, hnames⟩
    have hobject : objectOf operation = .ok operation := objectOf_eq_ok.mpr ⟨rfl, hnames⟩
    simp only [decode, hjson, hsuccessful, if_true, hdata, hobject]

theorem decode_eq_error {clock : Clock} {response : Response} {exception : ApiException}
    (h : decode clock response = .error exception) :
    exception.errorCode = "operation.outcome_unknown" ↔
      ¬ response.successful ∧ ∃ json, response.json = .array json ∧
        errorCodeOf json = some "operation.outcome_unknown" := by
  have hunavailable : tdlibUnavailable.errorCode ≠ "operation.outcome_unknown" := by decide
  unfold decode at h
  split at h
  · rename_i json hjson
    split_ifs at h with hsuccessful
    · have hexception : exception = tdlibUnavailable := by
        split at h
        · split at h
          · cases h
          · exact (Except.error.inj h).symm
        · exact (Except.error.inj h).symm
      rw [hexception]
      exact ⟨fun hcode => absurd hcode hunavailable, fun hother => absurd hsuccessful hother.1⟩
    · split at h
      · rename_i code hcode
        split_ifs at h with hsafe
        · cases h
          constructor
          · intro heq
            have hsame : code = "operation.outcome_unknown" := heq
            exact ⟨hsuccessful, json, hjson, hsame ▸ hcode⟩
          · rintro ⟨-, json', hjson', hcode'⟩
            cases hjson.symm.trans hjson'
            exact Option.some.inj (hcode.symm.trans hcode')
        · cases h
          refine ⟨fun heq => absurd heq hunavailable, fun ⟨_, json', hjson', hcode'⟩ => ?_⟩
          cases hjson.symm.trans hjson'
          cases hcode.symm.trans hcode'
          exact absurd (by decide) hsafe
      · rename_i hcode
        cases h
        refine ⟨fun heq => absurd heq hunavailable, fun ⟨_, json', hjson', hcode'⟩ => ?_⟩
        cases hjson.symm.trans hjson'
        cases hcode.symm.trans hcode'
  · rename_i hjson
    cases h
    exact ⟨fun heq => absurd heq hunavailable, fun ⟨_, json', hjson', _⟩ => absurd hjson' (hjson json')⟩

/-! ### What is recorded as failed -/

theorem states_eq_failed {name : String} : states name = some .failed ↔ name = "failed" := by
  unfold states
  split <;> simp_all

theorem outcome_failed {operation : Operation} :
    (outcome operation).state = .failed ↔ operation.state = some "failed" := by
  change (operation.state.bind states).getD .unknown = .failed ↔ _
  cases hstate : operation.state with
  | none => simp
  | some name =>
    rw [Option.bind_some, Option.some.injEq, ← states_eq_failed]
    cases states name <;> simp

theorem failure_failed {exception : ApiException} :
    (failure exception).state = .failed ↔ exception.errorCode ≠ "operation.outcome_unknown" := by
  unfold failure
  split_ifs with h <;> simp [h]

theorem recorded_failed {now : ℕ} {row : MessageSend} (hopen : row.state.settled = false)
    (outcome : Outcome) : (recorded now row outcome).state = .failed ↔ outcome.state = .failed := by
  have hrow : row.state ≠ .failed := by
    intro h
    rw [h] at hopen
    cases hopen
  unfold recorded
  split_ifs with hkept hback
  · rcases hkept with hsettled | ⟨-, hweak⟩
    · rw [hopen] at hsettled
      cases hsettled
    · refine ⟨fun h => absurd h hrow, fun h => absurd ?_ hweak⟩
      rw [h]
      rfl
  · rw [hback.2]
    exact ⟨fun h => absurd h hrow, nofun⟩
  · dsimp only
    split_ifs with hsame
    · rw [← congrArg MessageSend.state hsame]
    · rfl

theorem operationOf_failed {operation : List (ArrayKey × Value)} :
    (operationOf operation).state = some "failed" ↔
      entry operation "state" = some (.str "failed") := by
  unfold operationOf
  dsimp only
  split
  · rename_i text htext
    rw [htext]
    simp
  · rename_i hother
    exact ⟨nofun, fun h => absurd h (hother "failed")⟩

/-- **What may have been dispatched is not recorded as failed**, exactly when the answer can be read
or is an error. -/
theorem not_failed_iff (clock : Clock) (call : Call) (hhonest : call.Honest) (now : ℕ)
    (row : MessageSend) (hopen : row.state.settled = false) :
    (call.MayDispatch →
        (recorded now row (sendOutcome (sendMessage clock call))).state ≠ .failed) ↔
      call.Understood := by
  rw [Ne, recorded_failed hopen]
  cases call with
  | connectionException message transmitted =>
    refine ⟨fun _ => trivial, fun _ htransmitted hfailed => ?_⟩
    simp only [sendMessage] at hfailed
    split_ifs at hfailed with hnever
    · -- a request that was not transmitted dispatches nothing
      cases (hhonest hnever).symm.trans htransmitted
    · exact absurd rfl (failure_failed.mp hfailed)
  | returned response =>
    by_cases herror : 400 ≤ response.status
    · exact ⟨fun _ => .inl herror, fun _ hmay => absurd herror (Nat.not_le.mpr hmay.1)⟩
    · have hanswer : sendMessage clock (.returned response) =
          (decode clock response).map operationOf := by
        refine if_neg fun hserver => herror ?_
        exact Nat.le_trans (by decide) hserver.1
      rw [hanswer]
      cases hdecode : decode clock response with
      | ok operation =>
        have hholds := (decode_eq_ok operation).mp hdecode
        refine ⟨fun _ => .inr (.inl ⟨operation, hholds⟩), fun _ hmay hfailed => ?_⟩
        exact hmay.2 ⟨operation, hholds, operationOf_failed.mp (outcome_failed.mp hfailed)⟩
      | error exception =>
        have hnone : ¬ ∃ operation, response.Holds operation := by
          rintro ⟨operation, hholds⟩
          cases hdecode.symm.trans ((decode_eq_ok operation).mpr hholds)
        have hmay : (Call.returned response).MayDispatch :=
          ⟨Nat.not_le.mp herror, fun ⟨operation, hholds, _⟩ => hnone ⟨operation, hholds⟩⟩
        have hcode := decode_eq_error hdecode
        have hstate : (sendOutcome (Except.map operationOf (.error exception))).state = .failed ↔
            exception.errorCode ≠ "operation.outcome_unknown" := failure_failed
        rw [hstate, not_not, hcode]
        constructor
        · exact fun h => .inr (.inr (h hmay))
        · rintro (hother | hother | hunknown)
          · exact absurd hother herror
          · exact absurd hother hnone
          · exact fun _ => hunknown

/-- A row that has just been claimed, and a date function that reads nothing. -/
def claimedRow : MessageSend :=
  { instanceId := 1, tokenId := 1, accountId := 1, storageGeneration := 1, authorizationGeneration := 1,
    chatId := "1", replyTo := none, keyHash := [], requestHmac := [], id := 1, state := .dispatching,
    updatedAt := 0 }

@[inherit_doc claimedRow]
def noClock : Clock := ⟨0, fun _ => none⟩

/-- The connection was lost after the request had been sent. -/
theorem not_failed_timedOut :
    (recorded 0 claimedRow (sendOutcome (sendMessage noClock (.connectionException
      "cURL error 28: Operation timed out" true)))).state ≠ .failed :=
  (not_failed_iff noClock (.connectionException "cURL error 28: Operation timed out" true)
    (fun h => absurd h (by decide +kernel)) 0 claimedRow rfl).mpr trivial rfl

/-- A successful answer with an empty body may be of an operation that was dispatched, and is recorded
as failed. -/
theorem unread_failed :
    (Call.returned { status := 202, json := .null }).Honest ∧
      (Call.returned { status := 202, json := .null }).MayDispatch ∧
      (recorded 0 claimedRow (sendOutcome
        (sendMessage noClock (.returned { status := 202, json := .null })))).state = .failed :=
  ⟨trivial, ⟨by decide, fun ⟨_, hholds, _⟩ => by
    obtain ⟨_, hjson, _⟩ := hholds.data
    cases hjson⟩, by decide⟩

end Api
