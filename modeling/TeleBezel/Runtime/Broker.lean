import Mathlib.Tactic.Ring

/-!
# The request broker of the runtime

`TdRequestBroker` of `backend-tdlib/src/td_request_broker.cpp`: it hands requests to the transport
of TDLib, keeps a promise for each, and sets it with the answer of TDLib, or with an error of its
own when it stops. Requests that are refused before they reach the transport and requests that
nobody waits for any more are answered with errors of the same kind.
-/

open List

namespace Runtime

/-- A `uuid`. -/
abbrev Uuid := ℕ

structure Owner where
  uuid : Uuid
  operation : Uuid
deriving DecidableEq

/-- `td_api::MessageSendingState`. -/
inductive SendingState
  | pending (sendingId : ℤ)
  /-- The wait is in seconds, rounded up. -/
  | failed (canRetry : Bool) (retryAfter : ℤ) (needDropReply : Bool)
deriving DecidableEq

/-- `td_api::message`, as far as a send is concerned; no reply is a reply to 0. -/
structure TdMessage where
  id : ℤ
  chatId : ℤ
  sendingState : Option SendingState := none
  replyTo : ℤ := 0
deriving DecidableEq

inductive TdObject
  | message (message : TdMessage)
  | messageProperties (canBeReplied : Bool)
  | error (code : ℤ) (text : String)
  | other
deriving DecidableEq

inductive TdFunction
  | getMessage (chatId messageId : ℤ)
  | getMessageProperties (chatId messageId : ℤ)
  | sendMessage (owner : Owner) (chatId replyTo sendingId : ℤ) (text : String)
  | getMe

def TdFunction.owner : TdFunction → Option Owner
  | .sendMessage owner _ _ _ _ => some owner
  | _ => none

def tdErrorCode (object : Option TdObject) (code : ℤ) : Bool :=
  match object with
  | some (.error other _) => other = code
  | _ => false

def tdErrorMessage (object : Option TdObject) (text : String) : Bool :=
  match object with
  | some (.error _ other) => other = text
  | _ => false

/-- `Pending`, with the function that was asked. -/
structure Pending where
  clientId : ℤ
  function : TdFunction

structure Unresolved where
  clientId : ℤ
  recoveryAt : ℕ
  recoverClient : Bool

structure AsyncRequest where
  clientId : ℤ
  deadline : ℕ

/-- `RequestHandle`. The future of a request that did not reach the transport is ready. -/
structure RequestHandle where
  requestId : ℕ
  clientId : ℤ
  pending : Bool
  refusal : Option TdObject := none

structure Request where
  id : ℕ
  clientId : ℤ
  function : TdFunction

def requestLimit : ℕ := 1024

structure TdRequestBroker where
  stopping : Bool := false
  nextRequestId : ℕ := 1
  pending : List (ℕ × Pending) := []
  unresolved : List (ℕ × Unresolved) := []
  asyncRequests : List (ℕ × AsyncRequest) := []
  /-- The promises that are set. -/
  answers : ℕ → Option (Option TdObject) := fun _ => none
  /-- What the transport was handed. -/
  transport : List Request := []

namespace TdRequestBroker

def refusal (broker : TdRequestBroker) : TdObject :=
  .error 503 (if broker.stopping then "service.stopping" else "service.busy")

/-- `begin_request`. None when the transport throws: the promise is taken back. -/
def beginRequest (broker : TdRequestBroker) (clientId : ℤ) (function : TdFunction) (throws : Bool) :
    TdRequestBroker × Option RequestHandle :=
  if broker.stopping ∨ requestLimit ≤ broker.pending.length + broker.asyncRequests.length then
    (broker, some ⟨0, clientId, false, some broker.refusal⟩)
  else
    let id := broker.nextRequestId
    let broker := { broker with nextRequestId := id + 1 }
    if throws then (broker, none)
    else
      ({ broker with
          pending := broker.pending ++ [(id, ⟨clientId, function⟩)]
          transport := broker.transport ++ [⟨id, clientId, function⟩] },
        some ⟨id, clientId, true, none⟩)

def ready (broker : TdRequestBroker) (handle : RequestHandle) : Option (Option TdObject) :=
  if handle.pending then broker.answers handle.requestId else some handle.refusal

/-- `evict_unresolved`: of two, the one that recovers no client goes, or the one that is due
first. -/
def evictUnresolved (unresolved : List (ℕ × Unresolved)) : List (ℕ × Unresolved) :=
  let worse := fun (victim item : ℕ × Unresolved) =>
    (victim.2.recoverClient && !item.2.recoverClient) ||
      (victim.2.recoverClient = item.2.recoverClient && item.2.recoveryAt < victim.2.recoveryAt)
  match unresolved with
  | [] => []
  | first :: rest =>
    let victim := rest.foldl (fun victim item => if worse victim item then item else victim) first
    unresolved.filter fun item => item.1 ≠ victim.1

/-- `await_request`, when the time is over and the future is not ready. -/
def timeOut (broker : TdRequestBroker) (handle : RequestHandle) (recoveryAt : ℕ)
    (recoverClient : Bool) : TdRequestBroker :=
  let unresolved := if requestLimit ≤ broker.unresolved.length then
      evictUnresolved broker.unresolved
    else broker.unresolved
  { broker with
    pending := broker.pending.filter fun item => item.1 ≠ handle.requestId
    unresolved := unresolved ++ [(handle.requestId, ⟨handle.clientId, recoveryAt, recoverClient⟩)] }

/-- The answer of `await_request` then. -/
def timedOut : TdObject := .error 504 "operation.outcome_unknown"

/-- `request_identity`, up to what it returns. -/
def requestIdentity (broker : TdRequestBroker) (clientId : ℤ) (deadline : ℕ) (throws : Bool) :
    TdRequestBroker :=
  if clientId = 0 ∨ broker.stopping ∨
      requestLimit ≤ broker.pending.length + broker.asyncRequests.length then broker
  else
    let id := broker.nextRequestId
    let broker := { broker with nextRequestId := id + 1 }
    if throws then broker
    else { broker with
      asyncRequests := broker.asyncRequests ++ [(id, ⟨clientId, deadline⟩)]
      transport := broker.transport ++ [⟨id, clientId, .getMe⟩] }

/-- `complete`, up to what it returns. -/
def complete (broker : TdRequestBroker) (requestId : ℕ) (clientId : ℤ) (object : TdObject) :
    TdRequestBroker :=
  match broker.asyncRequests.find? fun item => item.1 = requestId with
  | some item =>
    if item.2.clientId ≠ clientId then broker
    else { broker with asyncRequests := broker.asyncRequests.filter fun item => item.1 ≠ requestId }
  | none =>
    match broker.pending.find? fun item => item.1 = requestId with
    | some item =>
      if item.2.clientId = clientId then
        { broker with
          answers := Function.update broker.answers requestId (some (some object))
          pending := broker.pending.filter fun item => item.1 ≠ requestId }
      else broker
    | none =>
      { broker with unresolved := broker.unresolved.filter fun item =>
          !(item.1 = requestId && item.2.clientId = clientId) }

/-- `expire`, up to the clients it returns. -/
def expire (broker : TdRequestBroker) (now : ℕ) : TdRequestBroker :=
  { broker with
    unresolved := broker.unresolved.filter fun item => now < item.2.recoveryAt
    asyncRequests := broker.asyncRequests.filter fun item => now < item.2.deadline }

def start (broker : TdRequestBroker) : TdRequestBroker := { broker with stopping := false }

/-- `stop`: every promise that is not set is set with an error, whatever the transport does with
its request. -/
def stop (broker : TdRequestBroker) : TdRequestBroker :=
  { broker with
    stopping := true
    answers := fun id => if broker.pending.any fun item => item.1 = id then
        some (some (.error 503 "service.stopping"))
      else broker.answers id
    pending := []
    unresolved := []
    asyncRequests := [] }

/-- What waits for an answer was handed to the transport, the transport knows every request by its
id, and no promise is set before its request is made. -/
structure Sound (broker : TdRequestBroker) : Prop where
  below : ∀ request ∈ broker.transport, request.id < broker.nextRequestId
  unique : ∀ request ∈ broker.transport, ∀ request' ∈ broker.transport,
    request.id = request'.id → request = request'
  pending : ∀ id item, (id, item) ∈ broker.pending →
    (⟨id, item.clientId, item.function⟩ : Request) ∈ broker.transport
  fresh : ∀ id, broker.nextRequestId ≤ id → broker.answers id = none

variable {broker : TdRequestBroker} {clientId : ℤ} {function : TdFunction}

theorem beginRequest_cases (broker : TdRequestBroker) (clientId : ℤ) (function : TdFunction)
    (throws : Bool) :
    broker.beginRequest clientId function throws =
        (broker, some ⟨0, clientId, false, some broker.refusal⟩) ∨
      broker.beginRequest clientId function throws =
        ({ broker with nextRequestId := broker.nextRequestId + 1 }, none) ∨
      broker.beginRequest clientId function throws =
        ({ broker with
            nextRequestId := broker.nextRequestId + 1
            pending := broker.pending ++ [(broker.nextRequestId, ⟨clientId, function⟩)]
            transport := broker.transport ++ [⟨broker.nextRequestId, clientId, function⟩] },
          some ⟨broker.nextRequestId, clientId, true, none⟩) := by
  unfold beginRequest
  split
  · exact Or.inl rfl
  · cases throws with
    | true => exact Or.inr (Or.inl rfl)
    | false => exact Or.inr (Or.inr rfl)

section

variable (h : Sound broker)
include h

theorem Sound.skip :
    Sound { broker with nextRequestId := broker.nextRequestId + 1 } :=
  { h with
    below := fun request hrequest => Nat.lt_succ_of_lt (h.below request hrequest)
    fresh := fun id hid => h.fresh id (Nat.le_of_succ_le hid) }

theorem Sound.hand :
    Sound { broker with
      nextRequestId := broker.nextRequestId + 1
      transport := broker.transport ++ [⟨broker.nextRequestId, clientId, function⟩] } := by
  constructor
  · intro request hrequest
    rcases mem_append.mp hrequest with hold | hlast
    · exact Nat.lt_succ_of_lt (h.below request hold)
    · rw [mem_singleton.mp hlast]
      exact Nat.lt_succ_self _
  · intro a ha b hb hab
    rcases mem_append.mp ha with hold | hlast
    · rcases mem_append.mp hb with hold' | hlast'
      · exact h.unique a hold b hold' hab
      · rw [mem_singleton.mp hlast'] at hab
        exact absurd hab (Nat.ne_of_lt (h.below a hold))
    · rcases mem_append.mp hb with hold' | hlast'
      · rw [mem_singleton.mp hlast] at hab
        exact absurd hab.symm (Nat.ne_of_lt (h.below b hold'))
      · rw [mem_singleton.mp hlast, mem_singleton.mp hlast']
  · intro id item hitem
    exact mem_append_left _ (h.pending id item hitem)
  · intro id hid
    exact h.fresh id (Nat.le_of_succ_le hid)

theorem Sound.lt_of_pending {id : ℕ} {item : Pending}
    (hitem : (id, item) ∈ broker.pending) : id < broker.nextRequestId :=
  h.below _ (h.pending id item hitem)

theorem Sound.fewer {pending : List (ℕ × Pending)}
    {unresolved : List (ℕ × Unresolved)} {asyncRequests : List (ℕ × AsyncRequest)} {stopping : Bool}
    {answers : ℕ → Option (Option TdObject)} (hpending : ∀ item ∈ pending, item ∈ broker.pending)
    (hanswers : ∀ id, broker.nextRequestId ≤ id → answers id = none) :
    Sound { broker with stopping, pending, unresolved, asyncRequests, answers } :=
  { h with
    pending := fun id item hitem => h.pending id item (hpending _ hitem)
    fresh := hanswers }

theorem Sound.begin {throws : Bool} :
    Sound (broker.beginRequest clientId function throws).1 := by
  rcases beginRequest_cases broker clientId function throws with heq | heq | heq <;> rw [heq]
  · exact h
  · exact h.skip
  · refine { h.hand with pending := ?_ }
    intro id item hitem
    rcases mem_append.mp hitem with hold | hlast
    · exact mem_append_left _ (h.pending id item hold)
    · obtain ⟨rfl, rfl⟩ := by simpa using hlast
      exact mem_append_right _ (mem_singleton_self _)

theorem Sound.timeOut {handle : RequestHandle} {recoveryAt : ℕ} {recoverClient : Bool} :
    Sound (broker.timeOut handle recoveryAt recoverClient) :=
  h.fewer (fun _ hitem => (mem_filter.mp hitem).1) h.fresh

theorem Sound.requestIdentity {deadline : ℕ} {throws : Bool} :
    Sound (broker.requestIdentity clientId deadline throws) := by
  unfold TdRequestBroker.requestIdentity
  split
  · exact h
  · split
    · exact h.skip
    · exact h.hand.fewer (fun _ hitem => hitem) h.hand.fresh

theorem Sound.complete {requestId : ℕ} {object : TdObject} :
    Sound (broker.complete requestId clientId object) := by
  unfold TdRequestBroker.complete
  split
  · split
    · exact h
    · exact h.fewer (fun _ hitem => hitem) h.fresh
  · split
    · rename_i item hfound
      have hmem : item ∈ broker.pending := mem_of_find?_eq_some hfound
      have hid : item.1 = requestId := by simpa using List.find?_some hfound
      split
      · refine h.fewer (fun _ hitem => (mem_filter.mp hitem).1) ?_
        intro id hle
        have hne : id ≠ requestId := by
          intro heq
          exact absurd (h.lt_of_pending hmem) (by omega)
        rw [Function.update_of_ne hne]
        exact h.fresh id hle
      · exact h
    · exact h.fewer (fun _ hitem => hitem) h.fresh

theorem Sound.expire {now : ℕ} : Sound (broker.expire now) :=
  h.fewer (fun _ hitem => hitem) h.fresh

theorem Sound.start : Sound broker.start :=
  h.fewer (fun _ hitem => hitem) h.fresh

theorem Sound.stop : Sound broker.stop := by
  refine h.fewer (fun _ hitem => absurd hitem not_mem_nil) ?_
  intro id hle
  rw [if_neg]
  · exact h.fresh id hle
  · intro hany
    obtain ⟨item, hitem, hid⟩ := any_eq_true.mp hany
    have hlt := h.lt_of_pending hitem
    exact absurd hlt (by simpa [of_decide_eq_true hid] using hle)

end

@[simp] theorem transport_complete {requestId : ℕ} {object : TdObject} :
    (broker.complete requestId clientId object).transport = broker.transport := by
  unfold TdRequestBroker.complete
  split
  · split <;> rfl
  · split
    · split <;> rfl
    · rfl

theorem answers_complete (broker : TdRequestBroker) (requestId : ℕ) (clientId : ℤ)
    (object : TdObject) (id : ℕ) :
    (broker.complete requestId clientId object).answers id = broker.answers id ∨
      id = requestId ∧ (broker.complete requestId clientId object).answers id = some (some object) ∧
        ∃ item, (requestId, item) ∈ broker.pending ∧ item.clientId = clientId := by
  unfold TdRequestBroker.complete
  split
  · split <;> exact Or.inl rfl
  · split
    · rename_i item hfound
      have hmem : item ∈ broker.pending := mem_of_find?_eq_some hfound
      have hid : item.1 = requestId := by simpa using List.find?_some hfound
      split
      · rename_i hclient
        by_cases heq : id = requestId
        · subst heq
          refine Or.inr ⟨rfl, Function.update_self _ _ _, item.2, ?_, hclient⟩
          rw [← hid]
          exact hmem
        · exact Or.inl (Function.update_of_ne heq _ _)
      · exact Or.inl rfl
    · exact Or.inl rfl

end TdRequestBroker

end Runtime
