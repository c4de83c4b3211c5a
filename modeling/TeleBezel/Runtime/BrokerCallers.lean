import TeleBezel.Runtime.Broker
import Mathlib.Data.List.Basic

/-!
# The callers of the request broker

`TdRequestBroker` with all that wait for it: requests are begun and awaited, their time is over while
their answers arrive, and the broker is started and stopped beside it, in any order. A wait does not
end at once when its time is over: `await_request` then takes the lock, and looks at the future once
more. The clock counts as finely as one likes, `second` to a second.
-/

namespace Runtime

namespace TdRequestBroker

variable (broker : TdRequestBroker)

/-- The promises that `complete` sets. -/
def completed (requestId : ℕ) (clientId : ℤ) : List ℕ :=
  match broker.asyncRequests.find? fun item => item.1 = requestId with
  | some _ => []
  | none =>
    match broker.pending.find? fun item => item.1 = requestId with
    | some item => if item.2.clientId = clientId then [requestId] else []
    | none => []

theorem complete_cases (requestId : ℕ) (clientId : ℤ) (object : TdObject) :
    ((∃ item ∈ broker.asyncRequests, item.1 = requestId) ∧
        broker.completed requestId clientId = [] ∧ ∃ asyncRequests,
        (∀ item ∈ asyncRequests, item ∈ broker.asyncRequests) ∧
          broker.complete requestId clientId object = { broker with asyncRequests }) ∨
      (∃ item, (requestId, item) ∈ broker.pending ∧ item.clientId = clientId ∧
        broker.completed requestId clientId = [requestId] ∧
        broker.complete requestId clientId object = { broker with
          answers := Function.update broker.answers requestId (some (some object))
          pending := broker.pending.filter fun item => item.1 ≠ requestId }) ∨
      (∃ item, (requestId, item) ∈ broker.pending ∧ item.clientId ≠ clientId ∧
        broker.completed requestId clientId = [] ∧
        broker.complete requestId clientId object = broker) ∨
      (∀ item, (requestId, item) ∉ broker.pending) ∧
        broker.completed requestId clientId = [] ∧
        broker.complete requestId clientId object = { broker with
          unresolved := broker.unresolved.filter fun item =>
            !(item.1 = requestId && item.2.clientId = clientId) } := by
  unfold complete completed
  cases hasync : broker.asyncRequests.find? fun item => item.1 = requestId with
  | some item =>
    refine Or.inl ⟨⟨item, List.mem_of_find?_eq_some hasync, ?_⟩, rfl, ?_⟩
    · simpa using List.find?_some hasync
    · dsimp only
      split
      · exact ⟨broker.asyncRequests, fun _ hitem => hitem, rfl⟩
      · exact ⟨_, fun _ hitem => (List.mem_filter.mp hitem).1, rfl⟩
  | none =>
    refine Or.inr ?_
    cases hpending : broker.pending.find? fun item => item.1 = requestId with
    | some item =>
      obtain ⟨id, item⟩ := item
      have hitem := List.mem_of_find?_eq_some hpending
      obtain rfl : id = requestId := by simpa using List.find?_some hpending
      by_cases hclient : item.clientId = clientId
      · refine Or.inl ⟨item, hitem, hclient, ?_, ?_⟩
        · exact if_pos hclient
        · exact if_pos hclient
      · refine Or.inr (Or.inl ⟨item, hitem, hclient, ?_, ?_⟩)
        · exact if_neg hclient
        · exact if_neg hclient
    | none =>
      refine Or.inr (Or.inr ⟨fun item hitem => ?_, rfl, rfl⟩)
      simpa using List.find?_eq_none.mp hpending _ hitem

/-- The clients that `expire` returns. -/
def stalled (broker : TdRequestBroker) (now : ℕ) : List ℤ :=
  broker.unresolved.foldl
    (fun stalled item =>
      if item.2.recoveryAt ≤ now ∧ item.2.recoverClient ∧ item.2.clientId ∉ stalled then
        stalled ++ [item.2.clientId]
      else stalled) []

theorem mem_of_mem_evictUnresolved {unresolved : List (ℕ × Unresolved)} {item : ℕ × Unresolved}
    (h : item ∈ evictUnresolved unresolved) : item ∈ unresolved := by
  cases unresolved with
  | nil => exact h
  | cons first rest => exact (List.mem_filter.mp h).1

/-- The requests that `pending_` and `async_requests_` hold. -/
def load : ℕ := broker.pending.length + broker.asyncRequests.length

end TdRequestBroker

inductive Wait
  /-- `await_request` is not called. -/
  | held
  | waiting (start timeout : ℕ) (recoverClient : Bool)
  /-- `wait_for` is over, and the lock is not taken. -/
  | late (start timeout : ℕ) (recoverClient : Bool)
  | answered (object : Option TdObject)
  | timedOut (start timeout : ℕ) (recoverClient : Bool) (settled : ℕ)
deriving DecidableEq

namespace Wait

def isOpen : Wait → Bool
  | held | waiting _ _ _ | late _ _ _ => true
  | answered _ | timedOut _ _ _ _ => false

/-- What `await_request` returned. -/
def outcome : Wait → Option (Option TdObject)
  | answered object => some object
  | timedOut _ _ _ _ => some (some TdRequestBroker.timedOut)
  | _ => none

theorem outcome_eq_none {wait : Wait} : wait.outcome = none ↔ wait.isOpen = true := by
  cases wait <;> simp [outcome, isOpen]

end Wait

/-- A handle with its wait. The last three fields tell how it was when the request was begun: what had
been heard, whether the broker was stopping, and the requests that it held. -/
structure BrokerCall where
  handle : RequestHandle
  wait : Wait := .held
  since : ℕ
  stopping : Bool
  load : ℕ

inductive Heard
  | response (clientId : ℤ) (requestId : ℕ) (object : TdObject)
  | stopped

/-- The broker with its callers. The last three fields only tell what happened: what was heard, the
promises that were set, and what `await_request` returned for which call. -/
structure Callers where
  broker : TdRequestBroker := {}
  clock : ℕ := 0
  calls : ℕ → Option BrokerCall := fun _ => none
  made : ℕ := 0
  heard : List Heard := []
  set : List ℕ := []
  returned : List (ℕ × Option TdObject) := []

inductive CallersEvent
  | begin (clientId : ℤ) (function : TdFunction) (throws : Bool)
  | await (call timeout : ℕ) (recoverClient : Bool)
  /-- The future is ready while it is waited for. -/
  | wake (call : ℕ)
  /-- The time is over, and the future is not ready. -/
  | lapse (call : ℕ)
  /-- The lock is taken then. -/
  | settle (call : ℕ)
  | complete (clientId : ℤ) (requestId : ℕ) (object : TdObject)
  | identity (clientId : ℤ) (throws : Bool)
  /-- `next_id`, as others call it. -/
  | skip
  /-- The clock was read before the lock is taken. -/
  | expire (now : ℕ)
  | start
  | stop
  | tick (ticks : ℕ)

namespace Callers

open TdRequestBroker

variable (s : Callers)

def goOn (n : ℕ) (call : BrokerCall) (wait : Wait) : Callers :=
  { s with calls := Function.update s.calls n (some { call with wait }) }

/-- `await_request` returns. -/
def finish (n : ℕ) (call : BrokerCall) (wait : Wait) (object : Option TdObject) : Callers :=
  { s.goOn n call wait with returned := s.returned ++ [(n, object)] }

/-- `begin_request`. -/
def beginCall (clientId : ℤ) (function : TdFunction) (throws : Bool) : Callers :=
  match s.broker.beginRequest clientId function throws with
  | (broker, none) => { s with broker }
  | (broker, some handle) =>
    { s with
      broker
      calls := Function.update s.calls s.made
        (some ⟨handle, .held, s.heard.length, s.broker.stopping, s.broker.load⟩)
      made := s.made + 1 }

/-- `await_request`, from the moment that it has the lock. -/
def settleCall (second : ℕ) (s : Callers) (n : ℕ) (call : BrokerCall) (start timeout : ℕ)
    (recoverClient : Bool) : Callers :=
  match s.broker.ready call.handle with
  | some object => s.finish n call (.answered object) object
  | none =>
    { s with broker := s.broker.timeOut call.handle (s.clock + 22 * second) recoverClient }.finish
      n call (.timedOut start timeout recoverClient s.clock) (some timedOut)

def step (second : ℕ) (s : Callers) : CallersEvent → Callers
  | .begin clientId function throws => s.beginCall clientId function throws
  | .await n timeout recoverClient =>
    match s.calls n with
    | some call =>
      if call.wait = .held then s.goOn n call (.waiting s.clock timeout recoverClient) else s
    | none => s
  | .wake n =>
    match s.calls n with
    | some call =>
      match call.wait, s.broker.ready call.handle with
      | .waiting _ _ _, some object => s.finish n call (.answered object) object
      | _, _ => s
    | none => s
  | .lapse n =>
    match s.calls n with
    | some call =>
      match call.wait with
      | .waiting start timeout recoverClient =>
        if start + timeout ≤ s.clock ∧ s.broker.ready call.handle = none then
          s.goOn n call (.late start timeout recoverClient)
        else s
      | _ => s
    | none => s
  | .settle n =>
    match s.calls n with
    | some call =>
      match call.wait with
      | .late start timeout recoverClient => s.settleCall second n call start timeout recoverClient
      | _ => s
    | none => s
  | .complete clientId requestId object =>
    { s with
      broker := s.broker.complete requestId clientId object
      heard := s.heard ++ [.response clientId requestId object]
      set := s.set ++ s.broker.completed requestId clientId }
  | .identity clientId throws =>
    { s with broker := s.broker.requestIdentity clientId (s.clock + 8 * second) throws }
  | .skip => { s with broker := { s.broker with nextRequestId := s.broker.nextRequestId + 1 } }
  | .expire now => if now ≤ s.clock then { s with broker := s.broker.expire now } else s
  | .start => { s with broker := s.broker.start }
  | .stop =>
    { s with
      broker := s.broker.stop
      heard := s.heard ++ [.stopped]
      set := s.set ++ s.broker.pending.map Prod.fst }
  | .tick ticks => { s with clock := s.clock + ticks }

def Response (call : BrokerCall) (object : TdObject) : Prop :=
  Heard.response call.handle.clientId call.handle.requestId object ∈ s.heard.drop call.since

/-- **Where an outcome comes from.** It is the response that the client of the call gave to its request,
or the error after the time was over, or the error of a broker that is overloaded or stops. -/
def Justified (call : BrokerCall) (outcome : Option TdObject) : Prop :=
  (∃ object, outcome = some object ∧ call.handle.pending = true ∧ s.Response call object) ∨
    (outcome = some timedOut ∧ ∃ start timeout recoverClient settled,
      call.wait = .timedOut start timeout recoverClient settled ∧ start + timeout ≤ settled) ∨
    (outcome = some (.error 503 "service.busy") ∧ requestLimit ≤ call.load) ∨
    (outcome = some (.error 503 "service.stopping") ∧
      (call.handle.pending = false ∧ call.stopping = true ∨ .stopped ∈ s.heard.drop call.since))

/-- A request that is to recover its client timed out, and was not answered in the time for it. -/
def Overdue (second : ℕ) (s : Callers) (clientId : ℤ) (now : ℕ) : Prop :=
  ∃ n call start timeout settled, s.calls n = some call ∧ call.handle.clientId = clientId ∧
    call.wait = .timedOut start timeout true settled ∧ settled + 22 * second ≤ now ∧
    ∀ object, ¬s.Response call object

/-- What the broker owes to its callers. -/
structure Kept (second : ℕ) (s : Callers) : Prop where
  /-- No call returns twice. -/
  once : (s.returned.map Prod.fst).Nodup
  justified : ∀ n outcome, (n, outcome) ∈ s.returned →
    ∃ call, s.calls n = some call ∧ call.wait.outcome = some outcome ∧ s.Justified call outcome
  /-- A wait can end, with nothing but time. -/
  ends : ∀ n call, s.calls n = some call → call.wait ≠ .held → call.wait.isOpen = true →
    ∃ ticks outcome, (n, outcome) ∈
      ([CallersEvent.wake n, .tick ticks, .lapse n, .settle n].foldl (step second) s).returned
  setOnce : s.set.Nodup
  /-- The promises that are set are the ones that have answers. -/
  mem_set : ∀ id, id ∈ s.set ↔ s.broker.answers id ≠ none
  /-- A response to a request that timed out sets no promise. -/
  late : ∀ n call start timeout recoverClient settled, s.calls n = some call →
    call.wait = .timedOut start timeout recoverClient settled → ∀ clientId object,
      (s.broker.complete call.handle.requestId clientId object).answers = s.broker.answers ∧
        s.broker.completed call.handle.requestId clientId = []
  load : s.broker.load ≤ requestLimit
  unresolved : s.broker.unresolved.length ≤ requestLimit
  stalled : ∀ now, ∀ clientId ∈ s.broker.stalled now, s.Overdue second clientId now

end Callers

end Runtime
