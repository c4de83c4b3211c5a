import TeleBezel.Runtime.Registry

/-!
# Fences of reads

`read_fence` and `fence_valid` of `backend-tdlib/src/runtime_support.cpp`: a read that asks TDLib notes
what the account was when it began, and compares before it goes on.
-/

namespace Runtime

/-- The check of `read_fence`. -/
def AccountState.readable (account : AccountState) : Bool :=
  account.reconciled && !account.closed && !account.tombstone && account.lifecycle = .active &&
    account.authorizationState = .ready && account.clientId ≠ 0 && !account.generationUnpersisted

structure ReadFence where
  generation : ℕ
  epoch : ℕ
  client : ℕ
  authorizationGeneration : ℕ
  sequence : ℕ

/-- What of an account fences its reads. Whether it can be read at all is one field here. -/
structure FenceState where
  readable : Bool := false
  generation : ℕ := 0
  epoch : ℕ := 0
  client : ℕ := 0
  authorizationGeneration : ℕ := 0
  eventSequence : ℕ := 0
  /-- The sequence of the first event of the journal. -/
  firstEvent : Option ℕ := none

def FenceState.readFence (s : FenceState) : Option ReadFence :=
  if s.readable then
    some ⟨s.generation, s.epoch, s.client, s.authorizationGeneration, s.eventSequence⟩
  else none

/-- `fence_valid`. -/
def FenceState.valid (s : FenceState) (fence : ReadFence) : Bool :=
  s.readable && s.generation = fence.generation && s.epoch = fence.epoch &&
    s.client = fence.client && s.authorizationGeneration = fence.authorizationGeneration &&
    s.firstEvent.all fun first => first ≤ fence.sequence + 1

inductive ReadError
  | invalidState
  | cursorUnusable
  | resyncRequired

end Runtime
