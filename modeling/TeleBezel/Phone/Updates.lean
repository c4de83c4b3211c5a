import TeleBezel.Phone.Callbacks
import TeleBezel.Lib.Transition

/-!
# The updates stream

One request asks for the updates of an account, whoever wants them: the callbacks of all that ask
while it is under way wait in one batch. The cursor moves when the answer comes, and what the answer
brings is then up to the callbacks: the EVENTS request of the watch drops it when its slot has been
given away, and the composer applies an event to the entries that know its operation by then.
-/

namespace Phone

inductive Listener
  /-- The EVENTS request that holds a slot. -/
  | events (slot : ℕ) (value : Settings)
  /-- The tracker of an account. -/
  | track (value : Settings)
  /-- A send that waits for the updates to be primed. -/
  | send (ref : ℕ) (value : Settings)

structure Batch where
  callbacks : List Listener
  cursor : Option JsString
  resynced : Bool

/-- `updates`: the cursors and the batches of the accounts. A batch that `reset` has dropped is gone:
its answer finds it not live. -/
structure Updates where
  cursors : JsString → Option JsString := fun _ => none
  waiting : JsString → Option Batch := fun _ => none

/-- The answer to an updates request: a cursor, where there is one, and its `send_changed` events. -/
inductive UpdatesResult
  | ok (cursor : Option JsString) (events : List Operation)
  | resync
  | error

namespace Updates

variable (updates : Updates) (account : JsString)

def primed : Bool := (updates.cursors account).isSome

@[simps] def poll (callback : Listener) : Updates :=
  { updates with
    waiting := Function.update updates.waiting account (some (match updates.waiting account with
      | some batch => { batch with callbacks := batch.callbacks ++ [callback] }
      | none =>
        { callbacks := [callback]
          cursor := updates.cursors account
          resynced := (updates.cursors account).isNone })) }

/-- The part of the callback of `api.updates` for a cursor that the service has lost: it asks
again, without one. -/
@[simps] def ask (batch : Batch) : Updates where
  cursors := Function.update updates.cursors account none
  waiting := Function.update updates.waiting account
    (some { batch with cursor := none, resynced := true })

/-- `delete waiting[account]`, after the cursor of the answer is stored. -/
@[simps] def close (cursor : Option JsString) : Updates where
  cursors := match cursor with
    | some value => if value = [] then updates.cursors
      else Function.update updates.cursors account (some value)
    | none => updates.cursors
  waiting := Function.update updates.waiting account none

end Updates

/-- The reader: the updates, the slot of EVENTS and the number of slots so far, and the composer;
with them the events that were returned, the entries each was applied to, and the entries that were
terminal, or had a status request under way, since it was returned. -/
structure Reader where
  updates : Updates := {}
  slot : Option ℕ := none
  begun : ℕ := 0
  compose : Compose := {}
  returned : List Operation := []
  applied : List (ℕ × Operation) := []
  excused : List (ℕ × Operation) := []

def terminal (state : SendState) : Bool := state = .sent || state = .failed

namespace Compose

variable (c : Compose)

def excuses (ref : ℕ) : Bool :=
  terminal (c.heap ref).state || c.tasks.any fun task => match task with
    | .status other _ => other = ref
    | _ => false

/-- The inner loop of `consume` for one event. -/
def heed (event : Operation) : Compose := (c.entries.foldl (consumeEvent event) (c, [])).1

/-- The entries that the loops of `consume` apply events to. -/
def heeded (c : Compose) : List Operation → List (ℕ × Operation)
  | [] => []
  | event :: events =>
    (c.entries.filter (c.concerns event)).map (·, event) ++ (c.heed event).heeded events

end Compose

namespace Reader

variable (env : Env) (r : Reader)

def hears (outcome : Outcome) : Listener → Bool
  | .events slot _ => r.slot = some slot && outcome.ok
  | .track _ => true
  | .send _ _ => true

def log (c : Compose) (outcome : Outcome) : List (ℕ × Operation) :=
  if outcome.ok then (c.load env).heeded outcome.events else []

variable (account : JsString)

/-- A callback of an updates poll: EVENTS ends its slot, unless it has lost it, and leaves an error
to the watch; a send posts after it. -/
def hand (outcome : Outcome) : Listener → Reader
  | .events slot value =>
    if r.slot ≠ some slot then r
    else if outcome.ok = false then { r with slot := none }
    else
      { r with
        slot := none
        compose := r.compose.consume env value account outcome
        applied := r.applied ++ log env r.compose outcome }
  | .track value =>
    { r with
      compose := r.compose.consume env value account outcome
      applied := r.applied ++ log env r.compose outcome }
  | .send ref value =>
    let c := r.compose.take (r.compose.tasks.idxOf (.poll ref value))
    { r with
      compose := c.polled env ref value outcome
      applied := r.applied ++ log env c outcome }

def deliver (batch : Batch) (outcome : Outcome) : Reader :=
  batch.callbacks.foldl (fun r callback => r.hand env account outcome callback) r

/-- The callback of `api.updates`, for the batch that waits. -/
def answer (result : UpdatesResult) : Reader :=
  match r.updates.waiting account with
  | none => r
  | some batch => match result with
    | .resync =>
      if batch.cursor.isSome then { r with updates := r.updates.ask account batch }
      else deliver env { r with updates := r.updates.close account none } account batch
        { ok := false, resynced := batch.resynced }
    | .error =>
      deliver env { r with updates := r.updates.close account none } account batch
        { ok := false, resynced := batch.resynced }
    | .ok cursor events =>
      deliver env
        { r with updates := r.updates.close account cursor, returned := r.returned ++ events }
        account batch { ok := true, events := events, resynced := batch.resynced }

/-- `events`: the slot of an earlier request, of whichever account, is taken over. -/
def events : Reader :=
  if ¬ accountPattern account then r
  else match env.settings with
    | none => r
    | some value =>
      { r with
        slot := some r.begun
        begun := r.begun + 1
        updates := r.updates.poll account (.events r.begun value) }

def track : Reader :=
  match env.settings with
  | none => r
  | some value => { r with updates := r.updates.poll account (.track value) }

/-- `send`, which asks for the updates where they are not primed. -/
def send (sequence : ℕ) (payload : SendPayload) : Reader :=
  let c := r.compose.send { env with primed := r.updates.primed payload.account } sequence payload
  { r with
    compose := c
    updates := (c.tasks.drop r.compose.tasks.length).foldl (fun updates task => match task with
      | .poll ref value => updates.poll (c.heap ref).account (.send ref value)
      | _ => updates) r.updates }

/-- `reset`: the slot is given up; the updates are reset with the entries. -/
def reset : Reader :=
  let c := r.compose.load env
  let kept := c.entries.head?.any fun ref =>
    some (c.heap ref).fingerprint = env.settings.map fingerprint
  { r with
    slot := none
    compose := r.compose.reset env
    updates := if kept then r.updates else {} }

def note : Reader :=
  { r with excused := r.excused ++ (r.compose.entries.filter r.compose.excuses).flatMap fun ref =>
      r.returned.map (ref, ·) }

end Reader

inductive ReaderEvent
  /-- The watch asks for the events of an account. -/
  | events (account : JsString)
  /-- The timer of the tracker of an account. -/
  | track (account : JsString)
  /-- The answer to the updates request of an account. -/
  | answer (account : JsString) (result : UpdatesResult)
  /-- `reader.reset`. -/
  | reset
  /-- A request of the watch, a timer or an answer that concerns only the composer. -/
  | compose (event : Event)

namespace Reader

def react (env : Env) (r : Reader) : ReaderEvent → Reader
  | .events account => r.events env account
  | .track account => r.track env account
  | .answer account result => r.answer env account result
  | .reset => r.reset env
  | .compose (.send sequence payload) => r.send env sequence payload
  | .compose (.poll _ _ _) | .compose (.polled _ _) | .compose .reset | .compose .restart => r
  | .compose event => { r with compose := r.compose.step (env, event) }

def step (r : Reader) (e : Env × ReaderEvent) : Reader := (r.react e.1 e.2).note

end Reader

end Phone
