import TeleBezel.Lib.Transition
import TeleBezel.Runtime.Lifecycle

/-!
# The runtime of an account

`RuntimeEngine` of `backend-tdlib/src/runtime_engine.cpp`, for one account: commands under way beside
the updates of TDLib, the clients that are closed because they stall, the thread that stores
generations, and the process that ends at any time and starts anew from what is in the file.
-/

namespace Runtime

open Program

variable (s : World)

def queueGenerationPersist : World :=
  { s with queue := s.queue ++ [s.account.authorizationGeneration] }

/-- The part of `handle_update` where an authorized session is left. -/
def leaveSession (state : AuthorizationState) (s : World) : World :=
  let s := if state = .closing ∨ state = .closed then s else
    queueGenerationPersist
      { s with
        account :=
          { s.account with
            authorizationGeneration :=
              if s.account.authorizationGeneration ≤ s.account.readyGeneration then
                s.account.authorizationGeneration + 1
              else s.account.authorizationGeneration
            generationUnpersisted := true } }
  { s with account := { s.account with reconciled := false } }

variable (client : ClientId)

/-- The part of `handle_update` where a client is closed. -/
def closeClient (s : World) : World :=
  { s with
    clients := s.clients.filter fun other => other ≠ client
    account :=
      { s.account with
        closed := true
        closing := false
        clientId := if s.account.clientId = client then 0 else s.account.clientId
        proxyApplied := false
        appliedProxy := none
        appliedTelegramApiId := 0
        appliedTelegramApiHash := none
        reconciled := s.account.reconciled &&
          (s.account.lifecycle = .logoutPending || s.account.lifecycle = .removing) } }

/-- The part of `handle_update` for `updateAuthorizationState`. -/
def handleAuthorization (state : AuthorizationState) (s : World) : World :=
  if client ∉ s.clients then s
  else
    let s := if s.account.authorizationState = .ready ∧ state ≠ .ready then leaveSession state s
      else s
    let s :=
      { s with
        account :=
          { s.account with
            readyGeneration := if state = .ready then s.account.authorizationGeneration
              else s.account.readyGeneration
            authorizationState := state } }
    if state = .closed then closeClient client s else s

def handleClosed (cause : Option ClientFunction) (s : World) : World :=
  let accepted := client ∈ s.clients ∧ cause = some .logOut ∧ (client, .logOut) ∈ s.transmitted
  let s := handleAuthorization client .closed s
  { s with logouts := if accepted then s.logouts ++ [.accepted] else s.logouts }

/-- The part of `receive_once` for a client that does not answer. -/
def stall (s : World) : World :=
  { s with
    account := if client ∈ s.clients ∧ s.account.clientId = client ∧ !s.account.closed then
        { s.account with closing := true, reconciled := false }
      else s.account
    transmitted := s.transmitted ++ [(client, .close)] }

/-- The part of `stop` that closes the client. -/
def stop : World :=
  if s.account.clientId ≠ 0 ∧ !s.account.closed then
    { s with transmitted := s.transmitted ++ [(s.account.clientId, .close)] }
  else s

def pop : World :=
  match s.worker, s.queue with
  | .idle, generation :: queue => { s with worker := .job generation, queue }
  | _, _ => s

/-- The thread calls `persist_authorization_generation`. -/
def persistJob (reply : Reply) (s : World) : World :=
  match s.worker with
  | .job generation =>
    match reply with
    | .threw _ => { s with worker := .stored generation true }
    | .torn =>
      { s with
        manifest := persistAuthorizationGeneration s.manifest generation
        worker := .stored generation true }
    | _ =>
      { s with
        manifest := persistAuthorizationGeneration s.manifest generation
        worker := .stored generation false
        reported := generation :: s.reported }
  | _ => s

def settle : World :=
  match s.worker with
  | .stored generation failed =>
    if !s.known ∨ s.account.authorizationGeneration ≠ generation then { s with worker := .idle }
    else if failed then
      { s with
        account := { s.account with reconciled := false, lastError := some (.storage .ioError) }
        worker := .retry generation }
    else { s with account := { s.account with generationUnpersisted := false }, worker := .idle }
  | _ => s

def requeue : World :=
  match s.worker with
  | .retry generation => { s with worker := .idle, queue := s.queue ++ [generation] }
  | _ => s

/-- `start`, after the process ended. A manifest that is not `readable` is set aside. -/
def World.restart (readable : Bool) : World :=
  { s with
    account := match s.manifest with
      | some manifest => if readable then manifest.account else {}
      | none => {}
    known := s.manifest.isSome && readable
    orphan := s.directory && s.manifest.isNone
    manifestError := if s.manifest.isSome ∧ !readable then some (.storage .corrupt) else none
    clients := []
    queue := []
    worker := .idle }

inductive Command
  | reconcile (command : AccountCommand)
  | logout (command : AccountCommand)
  | updateProxy (command : AccountCommand)
  | remove (command : AccountCommand)
  | authorization (command : AccountCommand) (valid : Bool)
deriving DecidableEq

def Command.program (config : Config) : Command → Cmd Answer
  | .reconcile command => Runtime.reconcile config command
  | .logout command => Runtime.logout config command
  | .updateProxy command => Runtime.updateProxy config command
  | .remove command => Runtime.remove config command
  | .authorization command valid => authorizationAction config command valid

structure Engine where
  world : World := {}
  running : List (Command × Cmd Answer) := []
  returned : List (Command × Except ErrorCode Answer) := []

inductive EngineEvent
  | call (command : Command)
  /-- A command under way takes an action. -/
  | advance (index : ℕ) (reply : Reply)
  | authorization (client : ClientId) (state : AuthorizationState)
  | closed (client : ClientId) (cause : Option ClientFunction)
  | stalled (client : ClientId)
  | stop
  | pop
  | persist (reply : Reply)
  | settle
  | requeue
  | restart (readable : Bool)

def EngineEvent.effect : EngineEvent → World → World
  | .authorization client state, s =>
    if state = .closed then s else handleAuthorization client state s
  | .closed client cause, s => handleClosed client cause s
  | .stalled client, s => stall client s
  | .stop, s => Runtime.stop s
  | .pop, s => Runtime.pop s
  | .persist reply, s => persistJob reply s
  | .settle, s => Runtime.settle s
  | .requeue, s => Runtime.requeue s
  | .call _, s | .advance _ _, s | .restart _, s => s

namespace Engine

def resume (s : Engine) (command : Command) : Cmd Answer → Engine
  | .ret answer => { s with returned := (command, .ok answer) :: s.returned }
  | .raise code => { s with returned := (command, .error code) :: s.returned }
  | program => { s with running := (command, program) :: s.running }

def take (s : Engine) (command : Command) (reply : Reply) : Cmd Answer → Engine
  | .act _ effect next =>
    { s with world := effect s.world reply }.resume command (next s.world reply)
  | program => s.resume command program

def step (config : Config) (s : Engine) (event : EngineEvent) : Engine :=
  match event with
  | .call command => s.take command .done (command.program config)
  | .advance index reply =>
    match s.running[index]? with
    | some (command, program) =>
      { s with running := s.running.eraseIdx index }.take command reply program
    | none => s
  | .restart readable => { s with world := s.world.restart readable, running := [] }
  | _ => { s with world := event.effect s.world }

end Engine

/-! An activation where nothing fails. -/

def advances (replies : List Reply) : List EngineEvent := replies.map (EngineEvent.advance 0)

def sampleConfig : Config := { telegramApiId := 1, telegramApiHash := some 1 }

/-- How the actions of `activate` turn out, without a proxy. -/
def sampleActivation : List Reply :=
  [.done, .done, .done, .done, .done, .answer .other, .answer .other, .done, .done, .answer .other,
    .done, .proxies [], .done, .done, .answer .other, .done]

end Runtime
