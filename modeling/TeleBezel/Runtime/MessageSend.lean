import TeleBezel.Runtime.Broker

/-!
# The sends of the runtime

`MessageSendService` of `backend-tdlib/src/message_send_service.cpp`: every call of `send` is a
thread that takes one step for each stretch under the lock of the accounts and for each request of
the broker; the updates of TDLib, the responses of its transport and the other services move
between these steps. What was handed to the transport, what TDLib refused and the temporary
messages of the operations are kept beside the state.
-/

namespace Runtime

open Function

def operationsPerAccount : ℕ := 256

/-- `finished_retention`, in seconds. -/
def finishedRetention : ℕ := 24 * 3600

structure SendFailure where
  code : String
  retryAfter : ℤ := 0
  retryable : Bool := false

def afterMarker (marker : List Char) : List Char → Option (List Char)
  | [] => if marker = [] then some [] else none
  | c :: rest =>
    if marker.isPrefixOf (c :: rest) then some ((c :: rest).drop marker.length)
    else afterMarker marker rest

/-- The digits of a wait, as `parse_int64` reads them, up to a day. -/
def parseWait (text : List Char) : Option ℤ :=
  let digits := text.takeWhile fun c => '0' ≤ c && c ≤ '9'
  let seconds : ℕ := digits.foldl (fun n c => n * 10 + (c.toNat - 48)) 0
  if digits ≠ [] ∧ seconds < 2 ^ 63 ∧ 0 < seconds then some (min (seconds : ℤ) 86400) else none

def waitSeconds (text : String) : ℤ :=
  (["FLOOD_WAIT_", "SLOWMODE_WAIT_", "retry after "].findSome? fun marker =>
    (afterMarker marker.toList text.toList).bind parseWait).getD 0

def mentions (text : String) (markers : List String) : Bool :=
  markers.any fun marker => (afterMarker marker.toList text.toList).isSome

def sendFailure (code : ℤ) (text : String) (retryAfter : ℤ) (canRetry : Bool) : SendFailure :=
  let waited := max (waitSeconds text) retryAfter
  if code = 429 ∨ 0 < waited then
    { code := "message.send_rate_limited", retryAfter := max 1 waited, retryable := true }
  else if mentions text ["MESSAGE_TOO_LONG", "too long"] then { code := "message.text_too_long" }
  else if mentions text ["REPLY_MESSAGE", "replied", "reply"] then
    { code := "message.reply_unavailable" }
  else if code = 403 ∨ mentions text ["FORBIDDEN", "BANNED", "RESTRICTED", "USER_IS_BLOCKED",
      "YOU_BLOCKED_USER", "PRIVACY", "Have no rights", "have no write access", "can't write"] then
    { code := "message.send_forbidden" }
  else { code := "message.send_failed", retryable := canRetry || 500 ≤ code }

inductive OperationState
  | preparing
  | dispatching
  | pending
  | sent
  | failed
deriving DecidableEq

structure SendOperation where
  chatId : ℤ := 0
  replyTo : ℤ := 0
  sendingId : ℤ := 0
  temporaryId : ℤ := 0
  messageId : ℤ := 0
  state : OperationState := .preparing
  error : String := ""
  retryAfter : ℤ := 0
  retryable : Bool := false
  replyDropped : Bool := false
  epoch : String := ""
  authorizationGeneration : ℕ := 0
  created : ℕ := 0
  finished : Option ℕ := none
deriving DecidableEq

def SendOperation.settled (operation : SendOperation) : Bool :=
  operation.state = .sent || operation.state = .failed

/-- What `send` reads of an account that is none of its own. -/
structure Status where
  generation : Uuid := 0
  authorizationGeneration : ℕ := 1
  runtimeEpoch : String := ""
  clientId : ℤ := 0
  reconciled : Bool := false
  closed : Bool := false
  tombstone : Bool := false
  lifecycleActive : Bool := false
  authorizationReady : Bool := false
  generationUnpersisted : Bool := false
  chats : List ℤ := []
deriving DecidableEq

/-- `Account`, as far as its sends are concerned. -/
structure Account where
  status : Status := {}
  sends : List (Uuid × SendOperation) := []
  sendMessages : List ((ℤ × ℤ) × Uuid) := []
  sendingIds : List (ℤ × Uuid) := []
deriving DecidableEq

structure SendCommand where
  operationId : Uuid
  generation : Uuid
  authorizationGeneration : ℕ
  chatId : ℤ
  replyTo : ℤ := 0
  text : String

/-- `read_fence`, up to the client. -/
def readFence (status : Status) : Option ℤ :=
  if !status.reconciled || status.closed || status.tombstone || !status.lifecycleActive ||
      !status.authorizationReady || status.clientId = 0 || status.generationUnpersisted then none
  else some status.clientId

namespace Account

variable (account : Account)

def operation (id : Uuid) : Option SendOperation :=
  (account.sends.find? fun item => item.1 = id).map Prod.snd

def modify (id : Uuid) (change : SendOperation → SendOperation) : Account :=
  { account with
    sends := account.sends.map fun item => if item.1 = id then (id, change item.2) else item }

def bind (key : ℤ × ℤ) (id : Uuid) : Account :=
  { account with
    sendMessages := account.sendMessages.filter (fun item => item.1 ≠ key) ++ [(key, id)] }

def freeSendingId (sendingId : ℤ) : Account :=
  { account with sendingIds := account.sendingIds.filter fun item => item.1 ≠ sendingId }

def prune (now : ℕ) : Account :=
  let expired := fun operation : SendOperation =>
    finishedRetention ≤ now - operation.finished.getD operation.created
  let gone := (account.sends.filter fun item => expired item.2).map Prod.snd
  { account with
    sends := account.sends.filter fun item => !expired item.2
    sendingIds := account.sendingIds.filter fun item => gone.all fun o => o.sendingId ≠ item.1
    sendMessages := account.sendMessages.filter fun item =>
      gone.all fun o => o.temporaryId = 0 || (o.chatId, o.temporaryId) ≠ item.1 }

def finish (id : Uuid) (failure : SendFailure) (now : ℕ) : Account :=
  match account.operation id with
  | none => account
  | some operation =>
    if operation.settled then account
    else
      (account.modify id fun operation => { operation with
        state := .failed
        error := failure.code
        retryAfter := failure.retryAfter
        retryable := failure.retryable
        finished := some now }).freeSendingId operation.sendingId

def accepted (id : Uuid) (replyTo sendingId : ℤ) (message : TdMessage) (now : ℕ) : Account :=
  match account.operation id with
  | none => account
  | some operation =>
    let account := if operation.temporaryId = 0 ∧ message.sendingState.isSome then
        (account.modify id fun operation => { operation with temporaryId := message.id }).bind
          (message.chatId, message.id) id
      else account
    if operation.state ≠ .dispatching then account
    else if message.sendingState.isSome then
      account.modify id fun operation => { operation with state := .pending }
    else
      (account.modify id fun operation => { operation with
        state := .sent
        messageId := message.id
        replyDropped := replyTo ≠ 0 && message.replyTo ≠ replyTo
        finished := some now }).freeSendingId sendingId

def bindPending (message : TdMessage) : Account :=
  match message.sendingState with
  | some (.pending sendingId) =>
    match account.sendingIds.find? fun item => item.1 = sendingId with
    | none => account
    | some (_, id) =>
      match account.operation id with
      | none => account
      | some operation =>
        if sendingId = 0 ∨ operation.chatId ≠ message.chatId then account
        else
          let account := if operation.temporaryId = 0 then
              (account.modify id fun operation => { operation with temporaryId := message.id }).bind
                (message.chatId, message.id) id
            else account
          if operation.state = .dispatching ∨ operation.state = .preparing then
            account.modify id fun operation => { operation with state := .pending }
          else account
  | _ => account

def succeeded (oldId : ℤ) (message : TdMessage) (now : ℕ) : Account :=
  match account.sendMessages.find? fun item => item.1 = (message.chatId, oldId) with
  | none => account
  | some (key, id) =>
    let account := { account with
      sendMessages := account.sendMessages.filter fun item => item.1 ≠ key }
    match account.operation id with
    | none => account
    | some operation =>
      if operation.settled then account
      else
        (account.modify id fun operation => { operation with
          state := .sent
          messageId := message.id
          replyDropped := operation.replyTo ≠ 0 && message.replyTo ≠ operation.replyTo
          finished := some now }).freeSendingId operation.sendingId

/-- What `failed` reports. -/
def updateFailure (message : TdMessage) (error : Option (ℤ × String)) : SendFailure :=
  let (canRetry, retryAfter, dropReply) := match message.sendingState with
    | some (.failed canRetry retryAfter needDropReply) => (canRetry, retryAfter, needDropReply)
    | _ => (false, 0, false)
  if dropReply then { code := "message.reply_unavailable" }
  else match error with
    | some (code, text) => sendFailure code text retryAfter canRetry
    | none => { code := "message.send_failed", retryable := canRetry }

def failed (oldId : ℤ) (message : TdMessage) (error : Option (ℤ × String)) (now : ℕ) : Account :=
  match account.sendMessages.find? fun item => item.1 = (message.chatId, oldId) with
  | none => account
  | some (key, id) =>
    let account := { account with
      sendMessages := account.sendMessages.filter fun item => item.1 ≠ key }
    (account.modify id fun operation => { operation with messageId := message.id }).finish id
      (updateFailure message error) now

def resetSession : Account :=
  { account with sends := [], sendMessages := [], sendingIds := [] }

section Operation

variable {a : Account} {operation : SendOperation} {id : Uuid}

theorem operation_eq (h : a.operation id = some operation) : (id, operation) ∈ a.sends := by
  obtain ⟨item, hfound, rfl⟩ := Option.map_eq_some_iff.mp h
  have hid : item.1 = id := by simpa using List.find?_some hfound
  rw [← hid]
  exact List.mem_of_find?_eq_some hfound

@[simp] theorem operation_modify (id : Uuid) (change : SendOperation → SendOperation) :
    (a.modify id change).operation id = (a.operation id).map change := by
  have hfirst : (fun item : Uuid × SendOperation => decide (item.1 = id)) ∘
      (fun item => if item.1 = id then (id, change item.2) else item) =
      fun item => decide (item.1 = id) := by
    funext item
    by_cases hid : item.1 = id <;> simp [hid]
  unfold Account.operation Account.modify
  rw [List.find?_map, hfirst]
  cases hfound : a.sends.find? fun item => item.1 = id with
  | none => rfl
  | some item =>
    have hid : item.1 = id := by simpa using List.find?_some hfound
    simp [hid]

@[simp] theorem operation_bind (key : ℤ × ℤ) (id other : Uuid) :
    (a.bind key other).operation id = a.operation id := rfl

@[simp] theorem operation_freeSendingId (sendingId : ℤ) (id : Uuid) :
    (a.freeSendingId sendingId).operation id = a.operation id := rfl

theorem operation_given (given : Prop) [Decidable given] (message : TdMessage)
    (hoperation : a.operation id = some operation) :
    ∃ after, (if given then
        (a.modify id fun operation => { operation with temporaryId := message.id }).bind
          (message.chatId, message.id) id
      else a).operation id = some after ∧ after.state = operation.state ∧
        after.sendingId = operation.sendingId := by
  split
  · refine ⟨{ operation with temporaryId := message.id }, ?_, rfl, rfl⟩
    simp [hoperation]
  · exact ⟨operation, hoperation, rfl, rfl⟩

theorem operation_eq_none {account : Account}
    (h : account.operation id = none) : ∀ item ∈ account.sends, item.1 ≠ id := by
  simpa [Account.operation] using h

theorem operation_modify_of_ne {other : Uuid} {change : SendOperation → SendOperation}
    (h : id ≠ other) : (a.modify other change).operation id = a.operation id := by
  have hfirst : (fun item : Uuid × SendOperation => decide (item.1 = id)) ∘
      (fun item => if item.1 = other then (other, change item.2) else item) =
      fun item => decide (item.1 = id) := by
    funext item
    by_cases hid : item.1 = other
    · simp [hid]
    · simp [hid]
  have hsame : ∀ item : Uuid × SendOperation, item.1 = id →
      (if item.1 = other then (other, change item.2) else item) = item := by
    intro item hid
    rw [if_neg]
    rw [hid]
    exact h
  unfold operation modify
  rw [List.find?_map, hfirst]
  cases hfound : a.sends.find? fun item => item.1 = id with
  | none => rfl
  | some item =>
    have hid : item.1 = id := by simpa using List.find?_some hfound
    simp [hsame item hid]

theorem operation_prune {now : ℕ} (h : a.operation id = some operation)
    (hkept : now - operation.finished.getD operation.created < finishedRetention) :
    (a.prune now).operation id = some operation := by
  obtain ⟨item, hfound, rfl⟩ := Option.map_eq_some_iff.mp h
  obtain ⟨hid, before, after, hsends, hbefore⟩ := List.find?_eq_some_iff_append.mp hfound
  refine Option.map_eq_some_iff.mpr ⟨item, ?_, rfl⟩
  unfold prune
  rw [List.find?_filter]
  refine List.find?_eq_some_iff_append.mpr ⟨?_, before, after, hsends, ?_⟩
  · simpa [hkept] using hid
  · intro other hother
    have hne : other.1 ≠ id := by simpa using hbefore other hother
    simp [hne]

def Keys : Prop :=
  ∀ x ∈ account.sends, ∀ y ∈ account.sends, x.1 = y.1 → x = y

theorem fst_modified (id : Uuid) (change : SendOperation → SendOperation)
    (item : Uuid × SendOperation) :
    (if item.1 = id then (id, change item.2) else item).1 = item.1 := by
  split
  · rename_i hid
    exact hid.symm
  · rfl

theorem Keys.modify (h : a.Keys) (id : Uuid) (change : SendOperation → SendOperation) :
    (a.modify id change).Keys := by
  intro x hx y hy hxy
  obtain ⟨x', hx', rfl⟩ := List.mem_map.mp hx
  obtain ⟨y', hy', rfl⟩ := List.mem_map.mp hy
  rw [fst_modified, fst_modified] at hxy
  rw [h x' hx' y' hy' hxy]

theorem Keys.operation_eq_some (h : a.Keys)
    (hmem : (id, operation) ∈ a.sends) : a.operation id = some operation := by
  cases hfound : a.operation id with
  | none => exact absurd rfl (operation_eq_none hfound _ hmem)
  | some other =>
    have heq := h _ (operation_eq hfound) _ hmem rfl
    exact congrArg (fun item : Uuid × SendOperation => some item.2) heq

end Operation

/-- The operation that `send` makes. -/
def created (account : Account) (command : SendCommand) (sendingId : ℤ) (now : ℕ) :
    SendOperation where
  chatId := command.chatId
  replyTo := command.replyTo
  sendingId := sendingId
  epoch := account.status.runtimeEpoch
  authorizationGeneration := account.status.authorizationGeneration
  created := now

/-- The stretch of `send` under the lock: the account after it, and the error or the client of a
new operation. What is too old is gone also when the message is refused after that. -/
def record (command : SendCommand) (sendingId : ℤ) (now : ℕ) :
    Account × Except String (Option ℤ) :=
  if account.status.tombstone then (account, .error "account.not_found")
  else if account.status.generation ≠ command.generation then
    (account, .error "storage.identity_mismatch")
  else match readFence account.status with
    | none => (account, .error "authorization.invalid_state")
    | some client =>
      if account.status.authorizationGeneration ≠ command.authorizationGeneration then
        (account, .error "operation.conflict")
      else
        let account := account.prune now
        match account.operation command.operationId with
        | some existing =>
          if existing.chatId ≠ command.chatId ∨ existing.replyTo ≠ command.replyTo then
            (account, .error "operation.conflict")
          else (account, .ok none)
        | none =>
          if command.chatId ∉ account.status.chats then (account, .error "chat.not_found")
          else if operationsPerAccount ≤ account.sends.length then (account, .error "service.busy")
          else
            ({ account with
                sends := account.sends ++
                  [(command.operationId, account.created command sendingId now)]
                sendingIds := account.sendingIds ++ [(sendingId, command.operationId)] },
              .ok (some client))

theorem record_cases (command : SendCommand) (sendingId : ℤ) (now : ℕ) :
    ((∀ client, (account.record command sendingId now).2 ≠ .ok (some client)) ∧
      ((account.record command sendingId now).1 = account ∨
        (account.record command sendingId now).1 = account.prune now)) ∨
    ∃ client, (account.prune now).operation command.operationId = none ∧
      account.record command sendingId now = ({ account.prune now with
        sends := (account.prune now).sends ++
          [(command.operationId, account.created command sendingId now)]
        sendingIds := (account.prune now).sendingIds ++ [(sendingId, command.operationId)] },
        .ok (some client)) := by
  unfold record
  split
  · exact Or.inl ⟨by simp, Or.inl rfl⟩
  · split
    · exact Or.inl ⟨by simp, Or.inl rfl⟩
    · split
      · exact Or.inl ⟨by simp, Or.inl rfl⟩
      · rename_i client _
        split
        · exact Or.inl ⟨by simp, Or.inl rfl⟩
        · dsimp only
          split
          · split
            · exact Or.inl ⟨by simp, Or.inr rfl⟩
            · exact Or.inl ⟨by simp, Or.inr rfl⟩
          · rename_i hnone
            split
            · exact Or.inl ⟨by simp, Or.inr rfl⟩
            · split
              · exact Or.inl ⟨by simp, Or.inr rfl⟩
              · exact Or.inr ⟨client, hnone, rfl⟩

end Account

/-- What `dispatch` is called with. -/
structure Call where
  uuid : Uuid
  command : SendCommand
  client : ℤ
  sendingId : ℤ

def Call.owner (call : Call) : Owner := ⟨call.uuid, call.command.operationId⟩

/-- Where `dispatch` stands. -/
inductive Stage
  /-- Before it asks for the message that is replied to. -/
  | original
  | originalAsked (handle : RequestHandle)
  /-- Before it asks for its properties. -/
  | properties
  | propertiesAsked (handle : RequestHandle)
  /-- Before the operation becomes `dispatching`. -/
  | marking
  /-- Before the message is sent. -/
  | handing
  | awaiting (handle : RequestHandle)

/-- A thread in `dispatch`. -/
structure Task where
  call : Call
  stage : Stage

structure State where
  now : ℕ := 0
  broker : TdRequestBroker := {}
  accounts : Uuid → Option Account := fun _ => none
  tasks : ℕ → Option Task := fun _ => none
  next : ℕ := 0
  /-- The operations whose message TDLib answered with an error. -/
  refused : List Owner := []
  /-- The temporary messages of the operations, with their chats. -/
  temporaries : List (Owner × ℤ × ℤ) := []
  /-- The messages of which TDLib reported that they could not be sent, under their old ids. -/
  sendFailed : List (Uuid × ℤ × ℤ) := []

inductive Event
  | elapse (seconds : ℕ)
  /-- Another service changes an account, or makes it known. -/
  | status (uuid : Uuid) (status : Status)
  | forget (uuid : Uuid)
  | resetSession (uuid : Uuid)
  /-- `send`, with the sending id that it draws. -/
  | send (uuid : Uuid) (command : SendCommand) (sendingId : ℤ)
  /-- A thread starts the request it is before; the transport may throw. -/
  | ask (thread : ℕ) (throws : Bool)
  /-- A thread takes the answer that is ready. -/
  | take (thread : ℕ)
  | timeOut (thread : ℕ)
  | mark (thread : ℕ)
  /-- A response of TDLib. -/
  | respond (requestId : ℕ) (clientId : ℤ) (object : TdObject)
  | newMessage (uuid : Uuid) (message : TdMessage)
  | sendSucceeded (uuid : Uuid) (oldId : ℤ) (message : TdMessage)
  | sendFailed (uuid : Uuid) (oldId : ℤ) (message : TdMessage) (error : Option (ℤ × String))
  | requestIdentity (clientId : ℤ) (throws : Bool)
  | expire
  | start
  | stop

namespace State

variable (s : State) (uuid : Uuid)

def change (f : Account → Account) : State :=
  { s with accounts := update s.accounts uuid ((s.accounts uuid).map f) }

variable (thread : ℕ)

def goOn (call : Call) (stage : Stage) : State :=
  { s with tasks := update s.tasks thread (some ⟨call, stage⟩) }

/-- `dispatch` returns. -/
def drop : State :=
  { s with tasks := update s.tasks thread none }

theorem tasks_goOn {s : State} {n m : ℕ} {call : Call} {stage : Stage} {other : Task}
    (h : (s.goOn n call stage).tasks m = some other) :
    m = n ∧ other = ⟨call, stage⟩ ∨ m ≠ n ∧ s.tasks m = some other := by
  by_cases heq : m = n
  · subst heq
    exact Or.inl ⟨rfl, by simpa [goOn] using h.symm⟩
  · exact Or.inr ⟨heq, by simpa [goOn, heq] using h⟩

theorem tasks_drop {s : State} {n m : ℕ} {other : Task} (h : (s.drop n).tasks m = some other) :
    m ≠ n ∧ s.tasks m = some other := by
  by_cases heq : m = n
  · simp [drop, heq] at h
  · exact ⟨heq, by simpa [drop, heq] using h⟩

/-- `fail`, and `dispatch` returns. -/
def fail (call : Call) (failure : SendFailure) : State :=
  (s.change call.uuid fun account =>
    account.finish call.command.operationId failure s.now).drop thread

/-- `send`, up to `dispatch`. -/
def send (command : SendCommand) (sendingId : ℤ) : State :=
  match s.accounts uuid with
  | none => s
  | some account =>
    let (account, made) := account.record command sendingId s.now
    let s := { s with accounts := update s.accounts uuid (some account) }
    match made with
    | .ok (some client) =>
      { s.goOn s.next ⟨uuid, command, client, sendingId⟩
          (if command.replyTo ≠ 0 then .original else .marking) with next := s.next + 1 }
    | _ => s

theorem send_cases (command : SendCommand) (sendingId : ℤ) :
    s.send uuid command sendingId = s ∨
    ∃ account, s.accounts uuid = some account ∧
      ((∃ after, (after = account ∨ after = account.prune s.now) ∧
        s.send uuid command sendingId =
          { s with accounts := update s.accounts uuid (some after) }) ∨
      ∃ client, (account.record command sendingId s.now).2 = .ok (some client) ∧
        (account.prune s.now).operation command.operationId = none ∧
        s.send uuid command sendingId = { s with
          accounts := update s.accounts uuid (some { account.prune s.now with
            sends := (account.prune s.now).sends ++
              [(command.operationId, account.created command sendingId s.now)]
            sendingIds := (account.prune s.now).sendingIds ++ [(sendingId, command.operationId)] })
          tasks := update s.tasks s.next (some ⟨⟨uuid, command, client, sendingId⟩,
            if command.replyTo ≠ 0 then .original else .marking⟩)
          next := s.next + 1 }) := by
  unfold send
  split
  · exact Or.inl rfl
  · rename_i account haccount
    refine Or.inr ⟨account, haccount, ?_⟩
    rcases Account.record_cases account command sendingId s.now with
      ⟨hmade, hsame⟩ | ⟨client, hnone, hrecord⟩
    · refine Or.inl ⟨_, hsame, ?_⟩
      dsimp only
      split
      · rename_i client hclient
        exact absurd hclient (hmade client)
      · rfl
    · rw [hrecord]
      exact Or.inr ⟨client, rfl, hnone, rfl⟩

def sendRequest (call : Call) : TdFunction :=
  .sendMessage call.owner call.command.chatId call.command.replyTo call.sendingId call.command.text

def ask (task : Task) (throws : Bool) : State :=
  let command := task.call.command
  match task.stage with
  | .original =>
    match s.broker.beginRequest task.call.client (.getMessage command.chatId command.replyTo) throws with
    | (broker, some handle) => { s with broker }.goOn thread task.call (.originalAsked handle)
    | (broker, none) => { s with broker }.drop thread
  | .properties =>
    match s.broker.beginRequest task.call.client
        (.getMessageProperties command.chatId command.replyTo) throws with
    | (broker, some handle) => { s with broker }.goOn thread task.call (.propertiesAsked handle)
    | (broker, none) => { s with broker }.drop thread
  | .handing =>
    match s.broker.beginRequest task.call.client (sendRequest task.call) throws with
    | (broker, some handle) => { s with broker }.goOn thread task.call (.awaiting handle)
    | (broker, none) =>
      { s with broker }.fail thread task.call { code := "message.send_failed", retryable := true }
  | _ => s

/-- The operation becomes `dispatching`, unless it is no longer being prepared. -/
def mark (call : Call) : State :=
  match (s.accounts call.uuid).bind fun account => account.operation call.command.operationId with
  | none => s.drop thread
  | some operation =>
    if operation.state ≠ .preparing then s.drop thread
    else
      (s.change call.uuid fun account => account.modify call.command.operationId fun operation =>
        { operation with state := .dispatching }).goOn thread call .handing

def originalAnswered (call : Call) (object : Option TdObject) : State :=
  match object with
  | some (.message _) => s.goOn thread call .properties
  | _ => s.fail thread call
    { code := if tdErrorCode object 504 || tdErrorMessage object "service.busy" then
        "message.send_failed" else "message.reply_unavailable"
      retryable := tdErrorCode object 504 }

def propertiesAnswered (call : Call) (object : Option TdObject) : State :=
  match object with
  | some (.messageProperties true) => s.goOn thread call .marking
  | some (.messageProperties false) => s.fail thread call { code := "message.reply_unavailable" }
  | _ => s.fail thread call
    { code := if tdErrorCode object 504 then "message.send_failed" else "message.reply_unavailable"
      retryable := tdErrorCode object 504 }

def binds (call : Call) (message : TdMessage) : Bool :=
  match (s.accounts call.uuid).bind fun account => account.operation call.command.operationId with
  | none => false
  | some operation => operation.temporaryId = 0 && message.sendingState.isSome

def sendAnswered (call : Call) (reached : Bool) (object : Option TdObject) : State :=
  match object with
  | some (.message message) =>
    { s.change call.uuid fun account => account.accepted call.command.operationId
        call.command.replyTo call.sendingId message s.now with
      temporaries := if s.binds call message then
          s.temporaries ++ [(call.owner, message.chatId, message.id)]
        else s.temporaries }.drop thread
  | some (.error code text) =>
    if reached ∧ code = 504 then s.drop thread
    else if !reached || text = "service.busy" || text = "service.stopping" then
      s.fail thread call { code := "message.send_failed", retryable := true }
    else s.fail thread call (sendFailure code text 0 false)
  | _ =>
    if reached then s.drop thread
    else s.fail thread call { code := "message.send_failed", retryable := true }

def answered (task : Task) (object : Option TdObject) : State :=
  match task.stage with
  | .originalAsked _ => s.originalAnswered thread task.call object
  | .propertiesAsked _ => s.propertiesAnswered thread task.call object
  | .awaiting handle => s.sendAnswered thread task.call handle.pending object
  | _ => s

def handle : Stage → Option RequestHandle
  | .originalAsked handle => some handle
  | .propertiesAsked handle => some handle
  | .awaiting handle => some handle
  | _ => none

def respond (requestId : ℕ) (clientId : ℤ) (object : TdObject) : State :=
  let owners := s.broker.transport.filterMap fun request =>
    if request.id = requestId ∧ request.clientId = clientId then request.function.owner else none
  { s with
    broker := s.broker.complete requestId clientId object
    refused := match object with
      | .error _ _ => s.refused ++ owners
      | _ => s.refused }

def bound (account : Account) (message : TdMessage) : Option Uuid :=
  match message.sendingState with
  | some (.pending sendingId) =>
    match account.sendingIds.find? fun item => item.1 = sendingId with
    | none => none
    | some (_, id) =>
      match account.operation id with
      | none => none
      | some operation =>
        if (sendingId = 0 ∨ operation.chatId ≠ message.chatId) ∨ operation.temporaryId ≠ 0 then none
        else some id
  | _ => none

/-- `updateNewMessage`. -/
def newMessage (message : TdMessage) : State :=
  let binding := (s.accounts uuid).bind fun account => bound account message
  { s.change uuid fun account => account.bindPending message with
    temporaries := s.temporaries ++
      (binding.map fun id => (Owner.mk uuid id, message.chatId, message.id)).toList }

/-- What the API is told of an operation: its state, and whether it may be sent again. -/
def report (owner : Owner) : Option (OperationState × Bool) :=
  ((s.accounts owner.uuid).bind fun account => account.operation owner.operation).map
    fun operation => (operation.state, operation.retryable)

end State

/-- Everything that can happen. An event for a thread that is not there, or not ready for it,
changes nothing. -/
def step (s : State) : Event → State
  | .elapse seconds => { s with now := s.now + seconds }
  | .status uuid status =>
    let account := (s.accounts uuid).getD {}
    { s with accounts := update s.accounts uuid (some { account with status }) }
  | .forget uuid => { s with accounts := update s.accounts uuid none }
  | .resetSession uuid => s.change uuid Account.resetSession
  | .send uuid command sendingId => s.send uuid command sendingId
  | .ask thread throws =>
    match s.tasks thread with
    | some task => s.ask thread task throws
    | none => s
  | .take thread =>
    match s.tasks thread with
    | some task =>
      match (State.handle task.stage).bind s.broker.ready with
      | some object => s.answered thread task object
      | none => s
    | none => s
  | .timeOut thread =>
    match s.tasks thread with
    | some task =>
      match State.handle task.stage with
      | some handle =>
        if s.broker.ready handle = none then
          { s with broker := s.broker.timeOut handle (s.now + 22) false }.answered thread task
            (some TdRequestBroker.timedOut)
        else s
      | none => s
    | none => s
  | .mark thread =>
    match s.tasks thread with
    | some ⟨call, .marking⟩ => s.mark thread call
    | _ => s
  | .respond requestId clientId object => s.respond requestId clientId object
  | .newMessage uuid message => s.newMessage uuid message
  | .sendSucceeded uuid oldId message =>
    s.change uuid fun account => account.succeeded oldId message s.now
  | .sendFailed uuid oldId message error =>
    { s.change uuid fun account => account.failed oldId message error s.now with
      sendFailed := s.sendFailed ++ [(uuid, message.chatId, oldId)] }
  | .requestIdentity clientId throws =>
    { s with broker := s.broker.requestIdentity clientId (s.now + 8) throws }
  | .expire => { s with broker := s.broker.expire s.now }
  | .start => { s with broker := s.broker.start }
  | .stop => { s with broker := s.broker.stop }

def sendingStatus : Status :=
  { clientId := 5, reconciled := true, lifecycleActive := true, authorizationReady := true
    chats := [9] }

def handedOver : List Event :=
  [.status 1 sendingStatus, .send 1 ⟨7, 0, 1, 9, 0, "hi"⟩ 3, .mark 0, .ask 0 false]

def refusedByTdlib : List Event :=
  handedOver ++ [.respond 1 5 (.error 400 "CHAT_RESTRICTED"), .take 0]

end Runtime
