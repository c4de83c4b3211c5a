import TeleBezel.Phone.Entry

/-!
# The composer of the phone

The state machine of `app/src/pkjs/lib/compose.js`. Entries are objects that closures keep hold
of, so they live on a heap and everything else refers to them by their place there. A callback
that is still to come is a task: the updates poll a send waits for, a POST on its way, the timer
of its repetition, a status request. Requests of the watch, polls and the tasks' answers come in
any order, each with the clock, the settings and the storage it finds.

The polls of the trackers come at any time and are not timed. An object of the API is a task of
its own, so an answer that is given at once is one that comes next.
-/

namespace Phone

open Function

structure Draft where
  id : ℕ
  account : JsString
  chat : JsString
  reply : JsString
  title : JsString
  text : JsString
  units : ℕ
  bytes : ℕ
  tooLong : Bool
  attempts : ℕ → Option ℕ

/-- What a check does when it is done: it answers the watch, or it ends the check of a resync
that found the entry in the state `before`. -/
inductive Next
  | sendCheck (sequence : ℕ)
  | resync (before : SendState)
deriving DecidableEq

/-- Who dispatches: `send`, or `check`. -/
inductive Done
  | send
  | check (next : Next)
deriving DecidableEq

/-- The variables of a call of `dispatch`. -/
structure Dispatch where
  ref : ℕ
  value : Settings
  started : ℤ
  attempt : ℕ
  done : Done
deriving DecidableEq

inductive Task
  | poll (ref : ℕ) (value : Settings)
  | post (dispatch : Dispatch)
  | retry (dispatch : Dispatch)
  | status (ref : ℕ) (next : Next)
deriving DecidableEq

def Task.ref : Task → ℕ
  | poll ref _ => ref
  | post dispatch => dispatch.ref
  | retry dispatch => dispatch.ref
  | status ref _ => ref

/-- A task of the dispatch that `send` has begun. -/
def Task.sends : Task → Bool
  | poll _ _ => true
  | post dispatch => dispatch.done = .send
  | retry dispatch => dispatch.done = .send
  | status _ _ => false

/-- A call of `api.sendMessage`, with what storage held at that time. -/
structure Post extends Identity where
  value : Settings
  sends : List Stored
deriving DecidableEq

/-- What has been heard of a key: a POST was lost, or an operation came in some state. -/
inductive Heard
  | lost (key : JsString)
  | operation (key : JsString) (state : SendState)

inductive Record
  | sendState (record : SendRecord)
  | draft (id bytes units : ℕ) (tooLong : Bool)
deriving DecidableEq

inductive Output
  | response (sequence : ℕ) (code : ResultCode) (records : List Record)
  | reject (sequence : ℕ)
  | push (records : List Record)
deriving DecidableEq

/-- The composer: its variables, its storage, the tasks it waits for, and what it has done: the
keys it has made, the POSTs, what was heard of them, and the messages to the watch. -/
structure Compose where
  loaded : Bool := false
  heap : ℕ → Entry := fun _ => default
  next : ℕ := 0
  entries : List ℕ := []
  drafts : ℕ → Option Draft := fun _ => none
  tasks : List Task := []
  sends : List Stored := []
  counter : ℕ := 0
  keys : List JsString := []
  posts : List Post := []
  heard : List Heard := []
  output : List Output := []

/-- What a callback finds: the clock, the settings, whether storage works, the draws of
`random`, and whether the updates of the account are primed. -/
structure Env where
  now : ℤ
  settings : Option Settings
  storage : Bool := true
  random : List ℕ := []
  primed : Bool := true

/-- The outcome of an updates poll; `events` are its `send_changed` events. -/
structure Outcome where
  ok : Bool
  events : List Operation := []
  resynced : Bool := false

/-- The payload of a DRAFT request: its target, and what its text source gives once it is
decoded and canonical. -/
structure DraftPayload where
  account : JsString
  chat : JsString
  reply : JsString
  title : JsString
  text : Except ResultCode JsString

structure SendPayload where
  draftId : ℕ
  attempt : ℤ
  account : JsString
  chat : JsString
  reply : JsString

namespace Compose

variable (env : Env) (c : Compose)

@[simps] def modify (ref : ℕ) (f : Entry → Entry) : Compose :=
  { c with heap := update c.heap ref (f (c.heap ref)) }

@[simps] def await (task : Task) : Compose := { c with tasks := c.tasks ++ [task] }

@[simps] def hear (heard : Heard) : Compose := { c with heard := c.heard ++ [heard] }

/-- `respond`, before its records are packed. -/
@[simps] def respond (sequence : ℕ) (code : ResultCode) (records : List Record) : Compose :=
  { c with output := c.output ++ [.response sequence code records] }

@[simps] def push (records : List Record) : Compose :=
  { c with output := c.output ++ if records = [] then [] else [.push records] }

def recordOf (ref : ℕ) : Record := .sendState (record (c.heap ref) false)

@[simps] def persist : Compose :=
  { c with sends :=
      if env.storage then
        ((c.entries.map c.heap).filter fun entry => entry.kept env.now).map Entry.stored
      else c.sends }

def slot (draftId attempt : ℕ) : Option ℕ :=
  (c.drafts draftId).bind fun draft => draft.attempts attempt

/-- The draft `load` makes for an entry that has none. -/
def draftFor (stored : Stored) : Draft where
  id := stored.draftId
  account := stored.account
  chat := stored.chat
  reply := stored.reply
  title := stored.title
  text := stored.text
  units := stored.text.length
  bytes := utf8Bytes stored.text
  tooLong := false
  attempts := fun _ => none

/-- `drafts[draftId].attempts[attempt] = entry`. -/
def setAttempt (draft : Draft) (attempt : ℕ) (ref : Option ℕ) : Draft :=
  { draft with attempts := update draft.attempts attempt ref }

/-- The part of `load` for one stored entry. -/
@[simps] def restore (stored : Stored) : Compose :=
  let draft := (c.drafts stored.draftId).getD (draftFor stored)
  { c with
    heap := update c.heap c.next stored.restore
    next := c.next + 1
    entries := c.entries ++ [c.next]
    drafts := update c.drafts stored.draftId
      (some (setAttempt draft stored.attempt (some c.next))) }

/-- The stored entries `load` keeps. -/
def restorable : List Stored :=
  if env.storage then
    c.sends.filter fun stored => stored.restorable (env.settings.map fingerprint) env.now
  else []

def load : Compose :=
  if c.loaded then c
  else persist env
    ((c.restorable env).foldl restore { c with loaded := true, entries := [] })

@[simps] def hearOperation (ref : ℕ) (operation : Operation) : Compose :=
  { c with heard := c.heard ++ operation.state.toList.map (.operation (c.heap ref).key) }

/-- `apply` on an entry. -/
def receive (ref : ℕ) (operation : Operation) : Compose :=
  (c.hearOperation ref operation).modify ref fun entry => entry.apply operation

/-- `apply` on the operation of an answer, which may be missing. -/
def receiveAnswer (ref : ℕ) : Option Operation → Compose
  | none => c
  | some operation => c.receive ref operation

/-- `waiters.forEach(...)`. -/
@[simps] def respondAll (waiters : List ℕ) (code : ResultCode) (records : List Record) : Compose :=
  { c with output := c.output ++ waiters.map fun sequence => .response sequence code records }

/-- `entry.waiters = []`. -/
def dropWaiters (ref : ℕ) : Compose := c.modify ref fun entry => entry.setWaiters []

def settle (ref : ℕ) : Compose :=
  (c.dropWaiters ref).respondAll (c.heap ref).waiters .ok [c.recordOf ref]

@[simps] def forget (ref : ℕ) : Compose :=
  let entry := c.heap ref
  { c with
    entries := c.entries.filter fun item => item ≠ ref
    drafts := match c.drafts entry.draftId with
      | none => c.drafts
      | some draft =>
        if draft.attempts entry.attempt = some ref then
          update c.drafts entry.draftId (some (setAttempt draft entry.attempt none))
        else c.drafts }

/-- `post` of `dispatch`. -/
@[simps] def post (dispatch : Dispatch) : Compose :=
  { c.await (.post { dispatch with attempt := dispatch.attempt + 1 }) with
    posts := c.posts ++
      [{ toIdentity := (c.heap dispatch.ref).toIdentity
         value := dispatch.value
         sends := c.sends }] }

def dispatch (ref : ℕ) (value : Settings) (done : Done) : Compose :=
  c.post { ref := ref, value := value, started := env.now, attempt := 0, done := done }

/-- The callback of `check`. -/
def checked (ref : ℕ) : Next → Compose
  | .sendCheck sequence =>
    let c := c.respond sequence .ok [c.recordOf ref]
    if (c.heap ref).state = .pending ∨ (c.heap ref).state = .unknown then
      c.modify ref fun entry => entry.setTracked env.now
    else c
  | .resync before =>
    let c := c.modify ref fun entry => entry.setChecking false
    if (c.heap ref).state ≠ before then c.push [c.recordOf ref] else c

/-- The callback of `send` for an error that ends the attempt for good. -/
def abandon (ref : ℕ) (code : ResultCode) : Compose :=
  (((c.dropWaiters ref).forget ref).persist env).respondAll (c.heap ref).waiters code []

/-- The callback of `dispatch`. -/
def finish (dispatch : Dispatch) (fatalCode : Option ResultCode) : Compose :=
  match dispatch.done, fatalCode with
  | .send, some code => c.abandon env dispatch.ref code
  | .send, none => (c.persist env).settle dispatch.ref
  | .check next, _ => (c.persist env).checked env dispatch.ref next

def again (dispatch : Dispatch) : Bool :=
  dispatch.attempt < postAttempts && env.now - dispatch.started < postWindowMs

/-- The callback of `api.sendMessage` for a POST that was lost. -/
def lostPost (dispatch : Dispatch) : Compose :=
  let c := c.hear (.lost (c.heap dispatch.ref).key)
  if again env dispatch then c.await (.retry dispatch)
  else (c.modify dispatch.ref Entry.setUnknown).finish env dispatch none

/-- The callback of `api.sendMessage` for a definite error. -/
def refusedPost (dispatch : Dispatch) (status : ℕ) (code : Option ApiCode) (retryAfter : ℕ) :
    Compose :=
  if status = 429 then
    (c.modify dispatch.ref fun entry => entry.setRateLimited retryAfter).finish env dispatch none
  else
    (c.modify dispatch.ref fun entry => entry.setRefused status code).finish env dispatch
      (fatal status code)

/-- The callback of `api.sendMessage`. -/
def answerPost (dispatch : Dispatch) : ApiResult → Compose
  | .ok operation => (c.receiveAnswer dispatch.ref operation).finish env dispatch none
  | .error status code retryAfter =>
    if lost status code then c.lostPost env dispatch
    else c.refusedPost env dispatch status code retryAfter

def check (ref : ℕ) (value : Settings) (next : Next) : Compose :=
  if (c.heap ref).known then c.await (.status ref next)
  else c.dispatch env ref value (.check next)

def readStatus (ref : ℕ) : ApiResult → Compose
  | .ok operation => c.receiveAnswer ref operation
  | .error status _ _ =>
    if status = 404 ∧ (c.heap ref).state ≠ .sent then c.modify ref Entry.setUnknown else c

/-- The callback of `api.sendStatus`. -/
def answerStatus (ref : ℕ) (next : Next) (result : ApiResult) : Compose :=
  ((c.readStatus ref result).persist env).checked env ref next

def concerns (event : Operation) (ref : ℕ) : Bool :=
  (c.heap ref).known && (c.heap ref).operationId = event.operationId

/-- The body of the inner loop of `consume`, with the entries that have changed. -/
def consumeEvent (event : Operation) (run : Compose × List ℕ) (ref : ℕ) : Compose × List ℕ :=
  if run.1.concerns event ref then
    (run.1.receive ref event,
      if (run.1.heap ref).changedBy event then run.2 ++ [ref] else run.2)
  else run

/-- The loops of `consume`. -/
def consumeEvents (events : List Operation) : Compose × List ℕ :=
  events.foldl (fun run event => run.1.entries.foldl (consumeEvent event) run) (c, [])

def unresolved (account : JsString) : List ℕ :=
  c.entries.filter fun ref =>
    let entry := c.heap ref
    entry.account = account && entry.known &&
      (entry.state = .pending || entry.state = .unknown) && !entry.checking

def recheck (value : Settings) (c : Compose) (ref : ℕ) : Compose :=
  let before := (c.heap ref).state
  (c.modify ref fun entry => entry.setChecking true).check env ref value (.resync before)

/-- The part of `consume` for the events. -/
def consumeAll (outcome : Outcome) : Compose × List ℕ :=
  if outcome.ok then c.consumeEvents outcome.events else (c, [])

/-- The part of `consume` for a resync. -/
def resync (value : Settings) (account : JsString) (outcome : Outcome) : Compose :=
  if outcome.resynced then (c.unresolved account).foldl (recheck env value) c else c

/-- `consume`, with the records it returns pushed. -/
def consume (value : Settings) (account : JsString) (outcome : Outcome) : Compose :=
  let run := (c.load env).consumeAll outcome
  let c := (run.1.resync env value account outcome).persist env
  c.push (run.2.map c.recordOf)

def nextDraftId : ℕ :=
  (if env.storage ∧ 0 < c.counter ∧ c.counter < 0xFFFFFFF0 then c.counter else 0) + 1

def newDraft (id : ℕ) (payload : DraftPayload) (text : JsString) : Draft where
  id := id
  account := payload.account
  chat := payload.chat
  reply := payload.reply
  title := payload.title
  text := text
  units := text.length
  bytes := utf8Bytes text
  tooLong := maxTextUnits < text.length
  attempts := fun _ => none

def target (payload : DraftPayload) : Bool :=
  accountPattern payload.account && chatPattern payload.chat &&
    (payload.reply = [] || messagePattern payload.reply)

/-- `draft`, once its text is there. -/
def addDraft (sequence : ℕ) (payload : DraftPayload) (text : JsString) : Compose :=
  let id := c.nextDraftId env
  let draft := newDraft id payload text
  let c := { c with
    counter := if env.storage then id else c.counter
    drafts := update c.drafts id (some draft) }
  c.respond sequence .ok [.draft id draft.bytes draft.units draft.tooLong]

def draft (sequence : ℕ) (payload : DraftPayload) : Compose :=
  let c := c.load env
  if ¬ target payload then { c with output := c.output ++ [.reject sequence] }
  else match payload.text with
    | .error code => c.respond sequence code []
    | .ok [] => c.respond sequence .protocolError []
    | .ok text => c.addDraft env sequence payload text

def sameTarget (found : Draft) (payload : SendPayload) : Bool :=
  payload.account = found.account && payload.chat = found.chat && payload.reply = found.reply

def attemptOf (payload : SendPayload) : ℕ :=
  if 0 ≤ payload.attempt then payload.attempt.toNat % 256 else 0

def busy : Bool := c.entries.any fun ref => (c.heap ref).state = .dispatching

/-- The entry `send` makes. -/
def newEntry (found : Draft) (attempt sequence : ℕ) (value : Settings) : Entry where
  draftId := found.id
  attempt := attempt
  key := newKey env.now env.random
  account := found.account
  chat := found.chat
  reply := found.reply
  title := found.title
  text := found.text
  created := env.now
  fingerprint := Phone.fingerprint value
  tracked := env.now
  waiters := [sequence]

/-- The entry `send` makes is filed under its attempt. -/
@[simps] def add (found : Draft) (attempt sequence : ℕ) (value : Settings) : Compose :=
  { c with
    heap := update c.heap c.next (newEntry env found attempt sequence value)
    next := c.next + 1
    entries := c.entries ++ [c.next]
    drafts := update c.drafts found.id (some (setAttempt found attempt (some c.next)))
    keys := c.keys ++ [newKey env.now env.random] }

/-- `send`, where it makes an entry: the entry is stored before anything is posted. -/
def enter (found : Draft) (attempt sequence : ℕ) (value : Settings) : Compose :=
  (c.add env found attempt sequence value).persist env

/-- `send`, from the new entry on: without primed updates it waits for a poll first. -/
def begin (found : Draft) (attempt sequence : ℕ) (value : Settings) : Compose :=
  let ref := c.next
  let c := c.enter env found attempt sequence value
  if env.primed then c.dispatch env ref value .send
  else c.await (.poll ref value)

/-- `send`, for an attempt that has no entry. -/
def sendNew (sequence : ℕ) (found : Draft) (attempt : ℕ) : Compose :=
  if c.busy then c.respond sequence .busy []
  else match env.settings with
    | none => c.respond sequence .configMissing []
    | some value => c.begin env found attempt sequence value

/-- `send`, for an attempt that has an entry. -/
def join (sequence ref : ℕ) : Compose :=
  if (c.heap ref).state = .dispatching then
    c.modify ref fun entry => entry.setWaiters (entry.waiters ++ [sequence])
  else c.respond sequence .ok [c.recordOf ref]

/-- `send`, for a draft that is found. -/
def sendDraft (sequence : ℕ) (found : Draft) (payload : SendPayload) : Compose :=
  if ¬ sameTarget found payload then { c with output := c.output ++ [.reject sequence] }
  else if found.tooLong then c.respond sequence .textTooLong []
  else match found.attempts (attemptOf payload) with
    | some ref => c.join sequence ref
    | none => c.sendNew env sequence found (attemptOf payload)

def send (sequence : ℕ) (payload : SendPayload) : Compose :=
  let c := c.load env
  match c.drafts payload.draftId with
  | none => c.respond sequence .draftLost []
  | some found => c.sendDraft env sequence found payload

def attemptsOf (found : Draft) : List ℕ := (List.range 256).filterMap found.attempts

def latest (found : Draft) : Option ℕ :=
  (attemptsOf found).foldl
    (fun best ref => match best with
      | none => some ref
      | some b => if (c.heap b).created ≤ (c.heap ref).created then some ref else some b) none

/-- `sendCheck`, for an entry that is not dispatching. -/
def inquire (sequence ref : ℕ) : Compose :=
  match env.settings with
  | none => c.respond sequence .configMissing []
  | some value =>
    if (c.heap ref).state = .sent ∨ (c.heap ref).state = .failed then
      c.respond sequence .ok [c.recordOf ref]
    else c.check env ref value (.sendCheck sequence)

def sendCheck (sequence draftId : ℕ) : Compose :=
  let c := c.load env
  match (c.drafts draftId).bind c.latest with
  | none => c.respond sequence .draftLost []
  | some ref =>
    if (c.heap ref).state = .dispatching then
      c.modify ref fun entry => entry.setWaiters (entry.waiters ++ [sequence])
    else c.inquire env sequence ref

/-- The body of the loop of `discard`. -/
def discardEntry (ref : ℕ) : Compose :=
  if (c.heap ref).state = .failed ∨ (c.heap ref).state = .sent then
    (c.modify ref Entry.discard).forget ref
  else c

/-- `delete drafts[found.id]`, if no attempt is left. -/
def dropDraft (draftId : ℕ) : Compose :=
  if (c.drafts draftId).all fun draft => attemptsOf draft = [] then
    { c with drafts := update c.drafts draftId none }
  else c

/-- `discard`, for a draft that is found. -/
def discardDraft (draftId : ℕ) (found : Draft) : Compose :=
  (((attemptsOf found).foldl discardEntry c).dropDraft draftId).persist env

def discard (sequence draftId : ℕ) : Compose :=
  let c := c.load env
  match c.drafts draftId with
  | none => c.respond sequence .ok []
  | some found => (c.discardDraft env draftId found).respond sequence .ok []

/-- The body of the loop of `restoredRecords`. -/
def retrack (ref : ℕ) : Compose :=
  if (c.heap ref).state = .pending ∨ (c.heap ref).state = .unknown then
    c.modify ref fun entry => entry.setTracked env.now
  else c

/-- `restoredRecords`: which of its accounts are tracked already is left open by `fresh`. -/
def restoredRecords (fresh : JsString → Bool) : Compose :=
  let c := c.load env
  let unsent := c.entries.filter fun ref => (c.heap ref).state ≠ .sent
  ((c.entries.filter fun ref => fresh (c.heap ref).account).foldl (retrack env) c).push
    (unsent.map fun ref => .sendState (record (c.heap ref) true))

/-- `reset`, where the settings have changed: the callbacks of the updates are dropped. -/
def clear : Compose :=
  { c with
    entries := []
    drafts := fun _ => none
    sends := if env.storage then [] else c.sends
    tasks := c.tasks.filter fun task => match task with
      | .poll _ _ => false
      | _ => true }

def reset : Compose :=
  let c := c.load env
  match c.entries.head? with
  | some ref =>
    if some (c.heap ref).fingerprint = env.settings.map fingerprint then c else c.clear env
  | none => c.clear env

@[simps] def restart : Compose :=
  { c with loaded := false, entries := [], drafts := fun _ => none, tasks := [] }

@[simps] def take (i : ℕ) : Compose := { c with tasks := c.tasks.eraseIdx i }

end Compose

/-- Everything that can happen to the composer; a task is named by its place in the list. -/
inductive Event
  | draft (sequence : ℕ) (payload : DraftPayload)
  | send (sequence : ℕ) (payload : SendPayload)
  | sendCheck (sequence draftId : ℕ)
  | discard (sequence draftId : ℕ)
  | restoredRecords (fresh : JsString → Bool)
  | poll (value : Settings) (account : JsString) (outcome : Outcome)
  | polled (i : ℕ) (outcome : Outcome)
  | timer (i : ℕ)
  | posted (i : ℕ) (result : ApiResult)
  | status (i : ℕ) (result : ApiResult)
  | reset
  | restart

namespace Compose

def polled (env : Env) (c : Compose) (ref : ℕ) (value : Settings) (outcome : Outcome) : Compose :=
  (c.consume env value (c.heap ref).account outcome).dispatch env ref value .send

def step (c : Compose) (e : Env × Event) : Compose :=
  let env := e.1
  match e.2 with
  | .draft sequence payload => c.draft env sequence payload
  | .send sequence payload => c.send env sequence payload
  | .sendCheck sequence draftId => c.sendCheck env sequence draftId
  | .discard sequence draftId => c.discard env sequence draftId
  | .restoredRecords fresh => c.restoredRecords env fresh
  | .poll value account outcome => c.consume env value account outcome
  | .polled i outcome => match c.tasks[i]? with
    | some (.poll ref value) => (c.take i).polled env ref value outcome
    | _ => c
  | .timer i => match c.tasks[i]? with
    | some (.retry dispatch) => (c.take i).post dispatch
    | _ => c
  | .posted i result => match c.tasks[i]? with
    | some (.post dispatch) => (c.take i).answerPost env dispatch result
    | _ => c
  | .status i result => match c.tasks[i]? with
    | some (.status ref next) => (c.take i).answerStatus env ref next result
    | _ => c
  | .reset => c.reset env
  | .restart => c.restart

end Compose

/-! A draft of the text `Hi` to one chat, for the runs that show a behaviour. -/

namespace Sample

def settings : Settings := { address := [116, 103, 58, 49], ssl := true, token := [116] }

/-- The account `00000000-0000-0000-0000-000000000000`. -/
def account : JsString :=
  List.replicate 8 48 ++ 45 :: List.replicate 4 48 ++ 45 :: List.replicate 4 48 ++
    45 :: List.replicate 4 48 ++ 45 :: List.replicate 12 48

def env (now : ℤ) : Env := { now := now, settings := some settings }

def draft : Event :=
  .draft 1 { account := account, chat := [49], reply := [], title := [], text := .ok [72, 105] }

def send (sequence : ℕ) (attempt : ℤ) : Event :=
  .send sequence { draftId := 1, attempt := attempt, account := account, chat := [49], reply := [] }

def operation (state : SendState) : ApiResult := .ok (some { id := some [111], state := some state })

end Sample

end Phone
