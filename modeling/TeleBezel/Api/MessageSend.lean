import TeleBezel.Api.Account
import TeleBezel.Api.MessageText

/-!
# The sends of the API

`MessageSendService` and `MessageSendRepository` of `backend-api/app`, as the requests of many
processes against one table. A request is a task that takes one step for each transaction and
for each answer of the gateway; between two of its steps every other request may move, time may
pass, and its process may die. What the service did is kept beside the state.
-/

namespace Api

inductive SendState
  | dispatching
  | pending
  | unknown
  | sent
  | failed
deriving DecidableEq

def SendState.settled (state : SendState) : Bool := state = .sent || state = .failed

def SendState.rank : SendState → ℕ
  | .dispatching => 0
  | .pending => 1
  | .unknown => 2
  | .sent => 3
  | .failed => 3

/-- A state stays as it is or moves up; `sent` and `failed` are both at the top. -/
def Forward (a b : SendState) : Prop := a = b ∨ a.rank < b.rank

instance (a b : SendState) : Decidable (Forward a b) := inferInstanceAs (Decidable (_ ∨ _))

/-- What a send reads of `PrincipalContext`. -/
structure PrincipalContext where
  id : Uuid
  instanceId : Option Uuid := none
deriving DecidableEq

/-- The arguments of `send`. -/
structure Post where
  principal : PrincipalContext
  uuid : Uuid
  chatId : String
  idempotencyKey : String
  text : Option String
  replyTo : Option String := none
deriving DecidableEq

/-- What `claim` is given. -/
structure Attributes where
  instanceId : Uuid
  tokenId : Uuid
  accountId : Uuid
  storageGeneration : Uuid
  authorizationGeneration : ℕ
  chatId : String
  replyTo : Option String
  keyHash : Bytes
  requestHmac : Bytes
deriving DecidableEq

/-- A row of `message_sends`. -/
structure MessageSend extends Attributes where
  id : Uuid
  state : SendState
  messageId : Option String := none
  errorCode : Option String := none
  retryAfter : Option ℤ := none
  retryable : Bool := false
  replyDropped : Bool := false
  updatedAt : ℕ
deriving DecidableEq

def Attributes.key (attributes : Attributes) : Uuid × Uuid × Bytes :=
  (attributes.tokenId, attributes.accountId, attributes.keyHash)

/-- The outcome that `record` is given. -/
structure Outcome where
  state : SendState
  messageId : Option String := none
  errorCode : Option String := none
  retryAfter : Option ℤ := none
  retryable : Bool := false
  replyDropped : Bool := false

/-- What the service reads of an operation that the runtime tells of: each field when it has the
type that is asked for. -/
structure Operation where
  state : Option String := none
  messageId : Option String := none
  errorCode : Option String := none
  retryAfter : Option ℤ := none
  retryable : Bool := false
  replyDropped : Bool := false

def notFoundGraceSeconds : ℕ := 15

/-- The entry of `STATES` with a name. -/
def states : String → Option SendState
  | "pending" => some .pending
  | "sent" => some .sent
  | "failed" => some .failed
  | "unknown" => some .unknown
  | _ => none

/-- `[a-z_]+`. -/
def isCodeWord (word : List Char) : Bool :=
  word ≠ [] && word.all fun c => ('a' ≤ c && c ≤ 'z') || c = '_'

/-- `[a-z_]+\.[a-z_]+`. -/
def codePattern (code : List Char) : Bool :=
  match code.dropWhile (· ≠ '.') with
  | [] => false
  | _ :: rest => isCodeWord (code.takeWhile (· ≠ '.')) && isCodeWord rest

def outcome (operation : Operation) : Outcome :=
  let state := (operation.state.bind states).getD .unknown
  { state
    messageId := operation.messageId.filter fun id => idPattern id.toList
    errorCode := match operation.errorCode.filter fun code => codePattern code.toList with
      | some code => some code
      | none => if state = .failed then some "message.send_failed" else none
    retryAfter := (operation.retryAfter.filter fun after => 0 < after).map fun after => min after 86400
    retryable := operation.retryable
    replyDropped := operation.replyDropped }

def failure (exception : ApiException) : Outcome :=
  if exception.errorCode = "operation.outcome_unknown" then
    { state := .unknown, errorCode := some "operation.outcome_unknown" }
  else
    { state := .failed
      errorCode := some exception.errorCode
      retryable := exception.errorCode ∈
        ["service.busy", "service.stopping", "service.tdlib_unavailable"]
      retryAfter := exception.retryAfter }

/-- What `refresh` records of an operation that the runtime does not know. -/
def forgotten : Outcome := { state := .unknown, errorCode := some "operation.outcome_unknown" }

/-- The row `record` writes. A row that does not change keeps its time. -/
def recorded (now : ℕ) (row : MessageSend) (outcome : Outcome) : MessageSend :=
  if row.state.settled ∨ (row.state = .unknown ∧ ¬ outcome.state.settled) then row
  else if row.state = .pending ∧ outcome.state = .dispatching then row
  else
    let filled := { row with
      state := outcome.state
      messageId := outcome.messageId <|> row.messageId
      errorCode := outcome.errorCode
      retryAfter := outcome.retryAfter
      retryable := outcome.retryable
      replyDropped := outcome.replyDropped }
    if filled = row then row else { filled with updatedAt := now }

def storable (row : MessageSend) : Bool :=
  (row.state ≠ .sent || row.messageId.isSome) && row.messageId.all (fun id => fitsInt64 id.toList) &&
    row.errorCode.all (fun code => code.length ≤ 64) &&
    row.retryAfter.all (fun after => -2 ^ 31 ≤ after && after < 2 ^ 31)

@[refl] theorem Forward.refl (a : SendState) : Forward a a := Or.inl rfl

theorem Forward.trans {a b c : SendState} (h : Forward a b) (h' : Forward b c) : Forward a c := by
  rcases h with rfl | h
  · exact h'
  · rcases h' with rfl | h'
    · exact Or.inr h
    · exact Or.inr (Nat.lt_trans h h')

theorem forward_recorded (now : ℕ) (row : MessageSend) (outcome : Outcome) :
    Forward row.state (recorded now row outcome).state := by
  obtain ⟨state, messageId, errorCode, retryAfter, retryable, replyDropped⟩ := outcome
  unfold recorded
  split
  · rfl
  · split
    · rfl
    · rename_i hopen hback
      dsimp only
      split
      · rfl
      -- what is left goes from a state that is not settled, and not back
      · cases hrow : row.state <;> cases state <;>
          simp_all [SendState.settled, Forward, SendState.rank]

theorem recorded_identity (now : ℕ) (row : MessageSend) (outcome : Outcome) :
    (recorded now row outcome).id = row.id ∧
      (recorded now row outcome).toAttributes = row.toAttributes := by
  unfold recorded
  split
  · exact ⟨rfl, rfl⟩
  · split
    · exact ⟨rfl, rfl⟩
    · dsimp only
      split <;> exact ⟨rfl, rfl⟩

/-- `TelegramAccountService::find` without a refresh. -/
def findAccount (accounts : Uuid → Option AccountData) (uuid : Uuid) : Except ApiException AccountData :=
  match accounts uuid with
  | none => throw { errorCode := "account.not_found", status := 404 }
  | some account =>
    if account.lifecycle = .removed then throw { errorCode := "account.gone", status := 410 }
    else return account

def sendable (accounts : Uuid → Option AccountData) (uuid : Uuid) : Except ApiException AccountData := do
  let account ← findAccount accounts uuid
  if account.lifecycle ≠ .active then
    throw { errorCode := "authorization.invalid_state", status := 409 }
  return account

variable (env : Env)

/-- What `send` does before it claims its key: its checks in their order, the attributes of the
row and the text that is sent. -/
def prepare (accounts : Uuid → Option AccountData) (post : Post) :
    Except ApiException (Attributes × String) := do
  if post.idempotencyKey.utf8ByteSize < 8 ∨ 200 < post.idempotencyKey.utf8ByteSize then
    throw { errorCode := "request.invalid_idempotency_key", status := 422 }
  if ¬ telegramId post.chatId then throw { errorCode := "chat.not_found", status := 404 }
  if ¬ post.replyTo.all telegramId then throw { errorCode := "request.invalid", status := 422 }
  let some text := canonical env post.text | throw { errorCode := "request.invalid", status := 422 }
  if text = "" then throw { errorCode := "request.invalid", status := 422 }
  if maximumUtf16Units < utf16Length text then
    throw { errorCode := "message.text_too_long", status := 422 }
  let account ← sendable accounts post.uuid
  let some instanceId := post.principal.instanceId
    | throw { errorCode := "auth.insufficient_scope", status := 403 }
  return ({
    instanceId
    tokenId := post.principal.id
    accountId := post.uuid
    storageGeneration := account.storageGeneration
    authorizationGeneration := account.authorizationGeneration
    chatId := post.chatId
    replyTo := post.replyTo
    keyHash := env.hash post.idempotencyKey
    requestHmac := env.requestHmac post.chatId post.replyTo text }, text)

def Post.key (post : Post) : Uuid × Uuid × Bytes :=
  (post.principal.id, post.uuid, env.hash post.idempotencyKey)

def Post.digest (post : Post) : Option Bytes :=
  (canonical env post.text).map (env.requestHmac post.chatId post.replyTo)

theorem prepare_ok {env : Env} {accounts : Uuid → Option AccountData} {post : Post}
    {attributes : Attributes} {text : String}
    (h : prepare env accounts post = .ok (attributes, text)) :
    attributes.key = post.key env ∧ some attributes.requestHmac = post.digest env := by
  simp only [prepare, bind, Except.bind, pure, Except.pure, throw, throwThe, MonadExceptOf.throw] at h
  -- every branch but the last one throws
  repeat' split at h
  all_goals first | contradiction | skip
  rename_i hcanonical _ _ _ _ _ _ _ _
  cases h
  exact ⟨rfl, by simp [Post.digest, hcanonical]⟩

inductive Answer
  | operation (send : MessageSend)
  | refused (exception : ApiException)
  /-- An exception of the database that nothing catches. -/
  | uncaught
deriving DecidableEq

/-- Where a request stands. A request that follows a send it did not make has no post. -/
inductive Task
  /-- `claim`, before its locked lookup. -/
  | lookup (post : Post) (attributes : Attributes) (text : String) (attempt : ℕ)
  /-- `claim`, after a lookup that found nothing and before the row is there. -/
  | insert (post : Post) (attributes : Attributes) (text : String) (attempt : ℕ)
  /-- `send`, before it calls the gateway. -/
  | dispatch (post : Post) (send : MessageSend) (text : String)
  /-- `send`, while the gateway has its call. -/
  | dispatched (post : Post) (send : MessageSend)
  /-- `refresh`, while the gateway is asked for the status. -/
  | refreshing (post : Option Post) (send : MessageSend)
  /-- Before `record`. -/
  | recording (post : Option Post) (id : Uuid) (outcome : Outcome)

structure Order where
  request : ℕ
  post : Post
  id : Uuid
deriving DecidableEq

/-- The accounts, the table, the clock and the requests, with what the requests have done. -/
structure State where
  accounts : Uuid → Option AccountData
  rows : List MessageSend := []
  now : ℕ := 0
  tasks : ℕ → Option Task := fun _ => none
  next : ℕ := 0
  /-- The posts that passed the checks before their claim. -/
  accepted : List (ℕ × Post) := []
  /-- The rows that were made. -/
  created : List Order := []
  /-- The calls of the gateway's `sendMessage`. -/
  calls : List Order := []
  answers : List (ℕ × Option Post × Answer) := []

inductive Event
  | elapse (seconds : ℕ)
  /-- Another service changes an account. -/
  | account (uuid : Uuid) (account : Option AccountData)
  | post (post : Post)
  | status (principal : PrincipalContext) (uuid operationId : Uuid)
  /-- An event of an update poll for an account. -/
  | observe (uuid operationId : Uuid) (operation : Operation)
  | lookup (request : ℕ)
  | insert (request : ℕ) (id : Uuid)
  | call (request : ℕ)
  | sendAnswer (request : ℕ) (answer : Except ApiException Operation)
  | statusAnswer (request : ℕ) (answer : Except ApiException (Option Operation))
  | record (request : ℕ)
  /-- The process of a request dies. -/
  | crash (request : ℕ)

namespace State

variable (s : State) (request : ℕ)

def goOn (task : Task) : State :=
  { s with tasks := Function.update s.tasks request (some task) }

def drop : State :=
  { s with tasks := Function.update s.tasks request none }

variable (post : Option Post)

def answer (s : State) (request : ℕ) (post : Option Post) (answer : Answer) : State :=
  { s.drop request with answers := s.answers ++ [(request, post, answer)] }

def begin : State := { s with next := s.next + 1 }

def existing (attributes : Attributes) : Option MessageSend :=
  s.rows.find? fun row => row.key = attributes.key

/-- `refresh`, up to its call of the gateway. -/
def refresh (post : Option Post) (send : MessageSend) : State :=
  if send.state.settled then s.answer request post (.operation send)
  else s.goOn request (.refreshing post send)

/-- The transaction of `claim`, up to its lookup. -/
def lookup (post : Post) (attributes : Attributes) (text : String) (attempt : ℕ) : State :=
  match s.existing attributes with
  | some row =>
    if row.requestHmac ≠ attributes.requestHmac then
      s.answer request (some post) (.refused { errorCode := "operation.conflict", status := 409 })
    else s.refresh request (some post) row
  | none => s.goOn request (.insert post attributes text attempt)

/-- The transaction of `claim`, from its insert on. A row that another request made in between
violates the unique index, and the claim is tried again. -/
def insert (post : Post) (attributes : Attributes) (text : String)
    (attempt : ℕ) (id : Uuid) : State :=
  match s.existing attributes with
  | some _ =>
    if 2 ≤ attempt then s.answer request (some post) .uncaught
    else s.goOn request (.lookup post attributes text (attempt + 1))
  | none =>
    -- `Str::uuid` draws no value twice
    if s.rows.any fun row => row.id = id then s
    else
      let row : MessageSend := { attributes with id, state := .dispatching, updatedAt := s.now }
      { s.goOn request (.dispatch post row text) with
        rows := s.rows ++ [row]
        created := s.created ++ [⟨request, post, id⟩] }

/-- `refresh`, from the answer of the gateway on. -/
def statusAnswer (post : Option Post) (send : MessageSend) :
    Except ApiException (Option Operation) → State
  | .error _ => s.answer request post (.operation send)
  | .ok none => s.answer request post (.operation send)
  | .ok (some operation) =>
    if operation.state = some "not_found" then
      if send.state = .unknown ∨ s.now < send.updatedAt + notFoundGraceSeconds then
        s.answer request post (.operation send)
      else s.goOn request (.recording post send.id forgotten)
    else s.goOn request (.recording post send.id (outcome operation))

def record (post : Option Post) (id : Uuid) (outcome : Outcome) : State :=
  match s.rows.find? fun row => row.id = id with
  | none => s.answer request post .uncaught
  | some row =>
    let row := recorded s.now row outcome
    if storable row then
      { s.answer request post (.operation row) with
        rows := s.rows.map fun other => if other.id = id then row else other }
    else s.answer request post .uncaught

@[simp] theorem rows_goOn (task : Task) :
    (s.goOn request task).rows = s.rows := rfl

@[simp] theorem rows_drop : (s.drop request).rows = s.rows := rfl

@[simp] theorem rows_answer (given : Answer) :
    (s.answer request post given).rows = s.rows := rfl

@[simp] theorem rows_begin : s.begin.rows = s.rows := rfl

@[simp] theorem rows_refresh (send : MessageSend) :
    (s.refresh request post send).rows = s.rows := by
  unfold refresh
  split <;> rfl

@[simp] theorem rows_lookup (post : Post) (attributes : Attributes) (text : String) (attempt : ℕ) :
    (s.lookup request post attributes text attempt).rows = s.rows := by
  unfold lookup
  split
  · split <;> simp
  · rfl

@[simp] theorem rows_statusAnswer
    (send : MessageSend) (given : Except ApiException (Option Operation)) :
    (s.statusAnswer request post send given).rows = s.rows := by
  unfold statusAnswer
  split
  · rfl
  · rfl
  · split
    · split <;> rfl
    · rfl

end State

/-- Everything that can happen to the sends. An event for a task that is not there changes
nothing. -/
def step (s : State) : Event → State
  | .elapse seconds => { s with now := s.now + seconds }
  | .account uuid account => { s with accounts := Function.update s.accounts uuid account }
  | .post post =>
    match prepare env s.accounts post with
    | .error exception => s.begin.answer s.next (some post) (.refused exception)
    | .ok (attributes, text) =>
      { s.begin.goOn s.next (.lookup post attributes text 0) with
        accepted := s.accepted ++ [(s.next, post)] }
  | .status principal uuid operationId =>
    match s.rows.find? fun row =>
        row.id = operationId && row.tokenId = principal.id && row.accountId = uuid with
    | none => s.begin.answer s.next none (.refused { errorCode := "operation.not_found", status := 404 })
    | some send => s.begin.refresh s.next none send
  | .observe uuid operationId operation =>
    match s.rows.find? fun row => row.id = operationId && row.accountId = uuid with
    | none => s
    | some send => s.begin.goOn s.next (.recording none send.id (outcome operation))
  | .lookup request =>
    match s.tasks request with
    | some (.lookup post attributes text attempt) => s.lookup request post attributes text attempt
    | _ => s
  | .insert request id =>
    match s.tasks request with
    | some (.insert post attributes text attempt) => s.insert request post attributes text attempt id
    | _ => s
  | .call request =>
    match s.tasks request with
    | some (.dispatch post send _) =>
      { s.goOn request (.dispatched post send) with
        calls := s.calls ++ [⟨request, post, send.id⟩] }
    | _ => s
  | .sendAnswer request answer =>
    match s.tasks request with
    | some (.dispatched post send) =>
      s.goOn request (.recording (some post) send.id
        (match answer with
          | .error exception => failure exception
          | .ok operation => outcome operation))
    | _ => s
  | .statusAnswer request answer =>
    match s.tasks request with
    | some (.refreshing post send) => s.statusAnswer request post send answer
    | _ => s
  | .record request =>
    match s.tasks request with
    | some (.recording post id outcome) => s.record request post id outcome
    | _ => s
  | .crash request => s.drop request

end Api
