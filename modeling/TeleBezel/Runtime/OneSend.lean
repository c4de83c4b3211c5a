import TeleBezel.Lib.Transition
import TeleBezel.Runtime.MessageSend

/-!
# One message for each operation

While an account keeps its session and an operation its place, the message of the operation is
handed to the transport once, whatever is sent again under its id, and an outcome does not change.
The hand-over from `preparing` to `dispatching` is the guard: only one thread makes it, and no step
leads back. A dispatch of an earlier session that has made it before the session was reset is not
held back any more.
-/

namespace Runtime

open Transition

variable {s s' : State} {owner : Owner}

def State.operation (s : State) (owner : Owner) : Option SendOperation :=
  (s.accounts owner.uuid).bind fun account => account.operation owner.operation

def State.handovers (s : State) (owner : Owner) : ℕ :=
  s.broker.transport.countP fun request => request.function.owner = some owner

/-- A thread has made an operation `dispatching` and is about to hand its message over. -/
def Handing (s : State) (owner : Owner) (n : ℕ) : Prop :=
  ∃ task, s.tasks n = some task ∧ task.stage = .handing ∧ task.call.owner = owner

/-- It is not yet pruned. -/
def SendOperation.Retained (operation : SendOperation) (now : ℕ) : Prop :=
  now - operation.finished.getD operation.created < finishedRetention

instance (operation : SendOperation) (now : ℕ) : Decidable (operation.Retained now) :=
  inferInstanceAs (Decidable (_ < _))

/-- The session of the account goes on, and the operation is not too old when another is sent. -/
def Session (owner : Owner) (s : State) : Event → Prop
  | .resetSession uuid => uuid ≠ owner.uuid
  | .forget uuid => uuid ≠ owner.uuid
  | .send uuid _ _ => uuid = owner.uuid →
      ∀ operation, s.operation owner = some operation → operation.Retained s.now
  | _ => True

structure SendOperation.Advances (a b : SendOperation) : Prop where
  prepared : a.state ≠ .preparing → b.state ≠ .preparing
  outcome : a.settled → b.state = a.state ∧ b.error = a.error ∧ b.retryAfter = a.retryAfter ∧
    b.retryable = a.retryable

def Evolves (id : Uuid) (a b : Account) : Prop :=
  ∀ operation, a.operation id = some operation →
    ∃ after, b.operation id = some after ∧ operation.Advances after

section Evolves

variable {id : Uuid} {a b c : Account}

theorem SendOperation.Advances.refl (operation : SendOperation) : operation.Advances operation :=
  ⟨fun h => h, fun _ => ⟨rfl, rfl, rfl, rfl⟩⟩

theorem SendOperation.Advances.trans {a b c : SendOperation} (h : a.Advances b)
    (h' : b.Advances c) : a.Advances c := by
  constructor
  · intro ha
    exact h'.prepared (h.prepared ha)
  · intro ha
    obtain ⟨hstate, herror, hafter, hretryable⟩ := h.outcome ha
    have hb : b.settled := by
      unfold SendOperation.settled at ha ⊢
      rw [hstate]
      exact ha
    obtain ⟨hstate', herror', hafter', hretryable'⟩ := h'.outcome hb
    exact ⟨hstate'.trans hstate, herror'.trans herror, hafter'.trans hafter,
      hretryable'.trans hretryable⟩

theorem SendOperation.Advances.of_open {a b : SendOperation} (hopen : a.settled = false)
    (hstate : b.state ≠ .preparing) : a.Advances b := by
  constructor
  · intro _
    exact hstate
  · intro hsettled
    rw [hopen] at hsettled
    exact absurd hsettled (by decide)

theorem Evolves.refl (id : Uuid) (a : Account) : Evolves id a a :=
  fun operation h => ⟨operation, h, SendOperation.Advances.refl operation⟩

theorem Evolves.trans (h : Evolves id a b) (h' : Evolves id b c) : Evolves id a c := by
  intro operation hoperation
  obtain ⟨middle, hmiddle, hadvances⟩ := h operation hoperation
  obtain ⟨after, hafter, hadvances'⟩ := h' middle hmiddle
  exact ⟨after, hafter, hadvances.trans hadvances'⟩

theorem evolves_of_sends (h : b.sends = a.sends) : Evolves id a b := by
  intro operation hoperation
  refine ⟨operation, ?_, SendOperation.Advances.refl operation⟩
  unfold Account.operation at hoperation ⊢
  rw [h]
  exact hoperation

theorem evolves_freeSendingId (sendingId : ℤ) : Evolves id a (a.freeSendingId sendingId) :=
  evolves_of_sends rfl

variable (other : Uuid)

theorem evolves_bind (key : ℤ × ℤ) (other : Uuid) : Evolves id a (a.bind key other) :=
  evolves_of_sends rfl

variable (change : SendOperation → SendOperation)

theorem evolves_modify
    (h : ∀ operation, a.operation other = some operation → operation.Advances (change operation)) :
    Evolves id a (a.modify other change) := by
  intro operation hoperation
  by_cases heq : id = other
  · subst heq
    exact ⟨change operation, by simp [hoperation], h operation hoperation⟩
  · refine ⟨operation, ?_, SendOperation.Advances.refl operation⟩
    rw [Account.operation_modify_of_ne heq]
    exact hoperation

theorem evolves_prune {now : ℕ}
    (h : ∀ operation, a.operation id = some operation → operation.Retained now) :
    Evolves id a (a.prune now) := by
  intro operation hoperation
  refine ⟨operation, ?_, SendOperation.Advances.refl operation⟩
  exact Account.operation_prune hoperation (h operation hoperation)

theorem evolves_append {item : Uuid × SendOperation} {sendingIds : List (ℤ × Uuid)} :
    Evolves id a { a with sends := a.sends ++ [item], sendingIds } := by
  intro operation hoperation
  refine ⟨operation, ?_, SendOperation.Advances.refl operation⟩
  obtain ⟨found, hfound, rfl⟩ := Option.map_eq_some_iff.mp hoperation
  unfold Account.operation
  rw [List.find?_append, hfound]
  rfl

theorem evolves_finish (failure : SendFailure) (now : ℕ) :
    Evolves id a (a.finish other failure now) := by
  unfold Account.finish
  split
  · exact Evolves.refl id a
  · rename_i operation hoperation
    split
    · exact Evolves.refl id a
    · rename_i hopen
      refine Evolves.trans (evolves_modify other _ ?_) (evolves_freeSendingId _)
      intro operation' hoperation'
      obtain rfl : operation = operation' := Option.some.inj (hoperation.symm.trans hoperation')
      exact SendOperation.Advances.of_open (by simpa using hopen) (by simp)

theorem evolves_given (given : Prop) [Decidable given] (other : Uuid) (message : TdMessage) :
    Evolves id a (if given then
        (a.modify other fun operation => { operation with temporaryId := message.id }).bind
          (message.chatId, message.id) other
      else a) := by
  split
  · refine Evolves.trans (evolves_modify other _ ?_) (evolves_bind _ other)
    intro operation _
    exact ⟨fun h => h, fun _ => ⟨rfl, rfl, rfl, rfl⟩⟩
  · exact Evolves.refl id a

theorem evolves_move
    (hopen : ∀ operation, a.operation other = some operation → operation.settled = false)
    (hmoved : ∀ operation, (change operation).state ≠ .preparing) :
    Evolves id a (a.modify other change) :=
  evolves_modify other change fun operation hoperation =>
    SendOperation.Advances.of_open (hopen operation hoperation) (hmoved operation)

theorem evolves_accepted (replyTo sendingId : ℤ) (message : TdMessage) (now : ℕ) :
    Evolves id a (a.accepted other replyTo sendingId message now) := by
  unfold Account.accepted
  split
  · exact Evolves.refl id a
  · rename_i operation hoperation
    have hgiven : Evolves id a _ := evolves_given
      (operation.temporaryId = 0 ∧ message.sendingState.isSome) other message
    dsimp only
    split
    · exact hgiven
    · rename_i hdispatching
      -- giving it a temporary message has left its state alone
      have hopen : ∀ after, (if operation.temporaryId = 0 ∧ message.sendingState.isSome then
          (a.modify other fun operation => { operation with temporaryId := message.id }).bind
            (message.chatId, message.id) other
          else a).operation other = some after → after.settled = false := by
        intro after hafter
        obtain ⟨given, hgiven, hstate, -⟩ := Account.operation_given
          (operation.temporaryId = 0 ∧ message.sendingState.isSome) message hoperation
        obtain rfl : given = after := Option.some.inj (hgiven.symm.trans hafter)
        simp [SendOperation.settled, hstate, not_not.mp hdispatching]
      split
      · exact hgiven.trans (evolves_move other _ hopen fun _ => OperationState.noConfusion)
      · refine Evolves.trans ?_ (evolves_freeSendingId sendingId)
        exact hgiven.trans (evolves_move other _ hopen fun _ => OperationState.noConfusion)

theorem evolves_bindPending (message : TdMessage) : Evolves id a (a.bindPending message) := by
  unfold Account.bindPending
  split
  · split
    · exact Evolves.refl id a
    · rename_i _ other _
      split
      · exact Evolves.refl id a
      · rename_i operation hoperation
        split
        · exact Evolves.refl id a
        · have hgiven : Evolves id a _ := evolves_given (operation.temporaryId = 0) other message
          dsimp only
          split
          · rename_i hearly
            refine hgiven.trans (evolves_move other _ ?_ fun _ => OperationState.noConfusion)
            intro after hafter
            obtain ⟨given, hgiven, hstate, -⟩ :=
              Account.operation_given (operation.temporaryId = 0) message hoperation
            obtain rfl : given = after := Option.some.inj (hgiven.symm.trans hafter)
            rcases hearly with h | h <;> simp [SendOperation.settled, hstate, h]
          · exact hgiven
  · exact Evolves.refl id a

theorem evolves_succeeded (oldId : ℤ) (message : TdMessage) (now : ℕ) :
    Evolves id a (a.succeeded oldId message now) := by
  unfold Account.succeeded
  split
  · exact Evolves.refl id a
  · rename_i key other _
    have herased : Evolves id a
        { a with sendMessages := a.sendMessages.filter fun item => item.1 ≠ key } :=
      evolves_of_sends rfl
    dsimp only
    split
    · exact herased
    · rename_i operation hoperation
      split
      · exact herased
      · rename_i hopen
        refine Evolves.trans ?_ (evolves_freeSendingId _)
        refine herased.trans (evolves_move other _ ?_ fun _ => OperationState.noConfusion)
        intro after hafter
        obtain rfl : operation = after := Option.some.inj (hoperation.symm.trans hafter)
        simpa using hopen

theorem evolves_failed (oldId : ℤ) (message : TdMessage) (error : Option (ℤ × String)) (now : ℕ) :
    Evolves id a (a.failed oldId message error now) := by
  unfold Account.failed
  split
  · exact Evolves.refl id a
  · rename_i key other _
    have herased : Evolves id a
        { a with sendMessages := a.sendMessages.filter fun item => item.1 ≠ key } :=
      evolves_of_sends rfl
    refine (herased.trans (evolves_modify other _ ?_)).trans (evolves_finish other _ now)
    intro operation _
    exact ⟨fun h => h, fun _ => ⟨rfl, rfl, rfl, rfl⟩⟩

end Evolves

/-- A step that neither hands the message of an operation over nor makes a thread do so. -/
structure Quiet (owner : Owner) (s s' : State) : Prop where
  handovers : s'.handovers owner = s.handovers owner
  handing : ∀ n, Handing s' owner n → Handing s owner n
  operation : ∀ operation, s.operation owner = some operation →
    ∃ after, s'.operation owner = some after ∧ operation.Advances after

inductive Moves (owner : Owner) (s s' : State) : Prop
  | quiet (h : Quiet owner s s')
  /-- A thread that has made it `dispatching` hands its message over. -/
  | hands (n : ℕ) (handing : Handing s owner n)
      (handovers : s'.handovers owner = s.handovers owner + 1)
      (rest : ∀ m, Handing s' owner m → Handing s owner m ∧ m ≠ n)
      (operation : s'.operation owner = s.operation owner)
  /-- A thread finds it in its preparation and makes it `dispatching`. -/
  | marks (n : ℕ) (operation after : SendOperation) (before : s.operation owner = some operation)
      (preparing : operation.state = .preparing) (now : s'.operation owner = some after)
      (dispatching : after.state = .dispatching)
      (handovers : s'.handovers owner = s.handovers owner)
      (rest : ∀ m, Handing s' owner m → Handing s owner m ∨ m = n)

section Quiet

variable {n : ℕ} {task : Task} {call : Call} {stage : Stage}

theorem Quiet.refl (owner : Owner) (s : State) : Quiet owner s s :=
  ⟨rfl, fun _ h => h, fun operation h => ⟨operation, h, SendOperation.Advances.refl operation⟩⟩

theorem Quiet.trans {s'' : State} (h : Quiet owner s s') (h' : Quiet owner s' s'') :
    Quiet owner s s'' := by
  refine ⟨h'.handovers.trans h.handovers, fun n hn => h.handing n (h'.handing n hn), ?_⟩
  intro operation hoperation
  obtain ⟨middle, hmiddle, hadvances⟩ := h.operation operation hoperation
  obtain ⟨after, hafter, hadvances'⟩ := h'.operation middle hmiddle
  exact ⟨after, hafter, hadvances.trans hadvances'⟩

theorem quiet_goOn_of_ne (h : stage = .handing → call.owner ≠ owner) :
    Quiet owner s (s.goOn n call stage) := by
  refine { Quiet.refl owner s with handovers := rfl, handing := ?_ }
  rintro m ⟨task, htask, hhanding, howner⟩
  rcases State.tasks_goOn htask with ⟨-, rfl⟩ | ⟨-, hold⟩
  · exact absurd howner (h hhanding)
  · exact ⟨task, hold, hhanding, howner⟩

theorem quiet_goOn (hstage : stage ≠ .handing) : Quiet owner s (s.goOn n call stage) :=
  quiet_goOn_of_ne fun h => absurd h hstage

theorem quiet_spawn {next : ℕ} (hstage : stage ≠ .handing) : Quiet owner s
    { s with tasks := Function.update s.tasks n (some ⟨call, stage⟩), next } := by
  have hgone : Quiet owner s (s.goOn n call stage) := quiet_goOn hstage
  exact ⟨hgone.handovers, hgone.handing, hgone.operation⟩

theorem quiet_drop : Quiet owner s (s.drop n) := by
  refine { Quiet.refl owner s with handovers := rfl, handing := ?_ }
  rintro m ⟨task, htask, hhanding, howner⟩
  exact ⟨task, (State.tasks_drop htask).2, hhanding, howner⟩

variable {temporaries : List (Owner × ℤ × ℤ)} {sendFailed : List (Uuid × ℤ × ℤ)}

theorem quiet_put {uuid : Uuid} {after : Option Account}
    (h : uuid = owner.uuid → ∀ account, s.accounts uuid = some account →
      ∃ b, after = some b ∧ Evolves owner.operation account b) :
    Quiet owner s
      { s with accounts := Function.update s.accounts uuid after, temporaries, sendFailed } := by
  refine ⟨rfl, fun _ hn => hn, ?_⟩
  intro operation hoperation
  by_cases heq : owner.uuid = uuid
  · obtain ⟨account, haccount, hfound⟩ := Option.bind_eq_some_iff.mp hoperation
    obtain ⟨b, rfl, hevolves⟩ := h heq.symm account (by rw [← heq]; exact haccount)
    obtain ⟨after, hafter, hadvances⟩ := hevolves operation hfound
    refine ⟨after, ?_, hadvances⟩
    unfold State.operation
    rw [heq]
    simpa using hafter
  · refine ⟨operation, ?_, SendOperation.Advances.refl operation⟩
    unfold State.operation at hoperation ⊢
    simpa [Function.update_of_ne heq] using hoperation

theorem quiet_change {uuid : Uuid} {f : Account → Account}
    (h : ∀ account, Evolves owner.operation account (f account)) :
    Quiet owner s { s.change uuid f with temporaries, sendFailed } := by
  refine quiet_put ?_
  intro _ account haccount
  exact ⟨f account, by rw [haccount]; rfl, h account⟩

theorem quiet_fail {failure : SendFailure} : Quiet owner s (s.fail n call failure) :=
  Quiet.trans (quiet_change fun _ => evolves_finish _ _ _) quiet_drop

theorem quiet_broker {broker : TdRequestBroker} {refused : List Owner}
    (h : broker.transport.countP (fun request => request.function.owner = some owner) =
      s.handovers owner) : Quiet owner s { s with broker, refused } :=
  ⟨h, fun _ hn => hn, fun operation hoperation =>
    ⟨operation, hoperation, SendOperation.Advances.refl operation⟩⟩

end Quiet

section Moves

variable {n : ℕ} {task : Task} {call : Call} {object : Option TdObject}

theorem quiet_originalAnswered :
    Quiet owner s (s.originalAnswered n call object) := by
  unfold State.originalAnswered
  split
  · exact quiet_goOn Stage.noConfusion
  · exact quiet_fail

theorem quiet_propertiesAnswered :
    Quiet owner s (s.propertiesAnswered n call object) := by
  unfold State.propertiesAnswered
  split
  · exact quiet_goOn Stage.noConfusion
  · exact quiet_fail
  · exact quiet_fail

theorem quiet_sendAnswered {reached : Bool} :
    Quiet owner s (s.sendAnswered n call reached object) := by
  unfold State.sendAnswered
  split
  · exact Quiet.trans (quiet_change fun _ => evolves_accepted _ _ _ _ _) quiet_drop
  · split
    · exact quiet_drop
    · split
      · exact quiet_fail
      · exact quiet_fail
  · split
    · exact quiet_drop
    · exact quiet_fail

theorem quiet_answered :
    Quiet owner s (s.answered n task object) := by
  unfold State.answered
  split
  · exact quiet_originalAnswered
  · exact quiet_propertiesAnswered
  · exact quiet_sendAnswered
  · exact Quiet.refl owner s

theorem quiet_asked {function : TdFunction} {throws : Bool} {stage : RequestHandle → Stage}
    (hfunction : function.owner = none) (hstage : ∀ handle, stage handle ≠ .handing) :
    Quiet owner s (match s.broker.beginRequest call.client function throws with
      | (broker, some handle) => { s with broker }.goOn n call (stage handle)
      | (broker, none) => { s with broker }.drop n) := by
  rcases TdRequestBroker.beginRequest_cases s.broker call.client function throws with
    heq | heq | heq <;> rw [heq]
  · exact quiet_goOn (hstage _)
  · refine Quiet.trans ?_ quiet_drop
    exact quiet_broker rfl
  · refine Quiet.trans ?_ (quiet_goOn (hstage _))
    refine quiet_broker ?_
    simp [State.handovers, hfunction]

theorem moves_ask {throws : Bool} (htask : s.tasks n = some task) :
    Moves owner s (s.ask n task throws) := by
  unfold State.ask
  split
  · exact Moves.quiet (quiet_asked rfl fun _ => Stage.noConfusion)
  · exact Moves.quiet (quiet_asked rfl fun _ => Stage.noConfusion)
  · rename_i hstage
    rcases TdRequestBroker.beginRequest_cases s.broker task.call.client
      (State.sendRequest task.call) throws with heq | heq | heq <;> rw [heq]
    · exact Moves.quiet (quiet_goOn Stage.noConfusion)
    · refine Moves.quiet (Quiet.trans ?_ quiet_fail)
      exact quiet_broker rfl
    · by_cases howner : task.call.owner = owner
      · refine Moves.hands n ⟨task, htask, hstage, howner⟩ ?_ ?_ rfl
        · simp [State.handovers, State.goOn, State.sendRequest, TdFunction.owner, howner]
        · rintro m ⟨other, hother, hhanding, hsame⟩
          rcases State.tasks_goOn hother with ⟨-, rfl⟩ | ⟨hne, hold⟩
          · exact absurd hhanding Stage.noConfusion
          · exact ⟨⟨other, hold, hhanding, hsame⟩, hne⟩
      · refine Moves.quiet (Quiet.trans ?_ (quiet_goOn Stage.noConfusion))
        refine quiet_broker ?_
        simp [State.handovers, State.sendRequest, TdFunction.owner, howner]
  · exact Moves.quiet (Quiet.refl owner s)

theorem moves_mark : Moves owner s (s.mark n call) := by
  unfold State.mark
  split
  · exact Moves.quiet quiet_drop
  · rename_i operation hoperation
    split
    · exact Moves.quiet quiet_drop
    · rename_i hpreparing
      obtain ⟨account, haccount, hfound⟩ := Option.bind_eq_some_iff.mp hoperation
      by_cases howner : call.owner = owner
      · subst howner
        refine Moves.marks n operation { operation with state := .dispatching } hoperation
          (not_not.mp hpreparing) ?_ rfl rfl ?_
        · simp [State.operation, State.goOn, State.change, Call.owner, haccount, hfound]
        · rintro m ⟨other, hother, hhanding, hsame⟩
          rcases State.tasks_goOn hother with ⟨rfl, -⟩ | ⟨-, hold⟩
          · exact Or.inr rfl
          · exact Or.inl ⟨other, hold, hhanding, hsame⟩
      · refine Moves.quiet (Quiet.trans ?_ (quiet_goOn_of_ne fun _ => howner))
        refine quiet_put ?_
        intro _ account' haccount'
        obtain rfl : account = account' := Option.some.inj (haccount.symm.trans haccount')
        refine ⟨_, by rw [haccount]; rfl, evolves_move _ _ ?_ fun _ => OperationState.noConfusion⟩
        intro operation' hoperation'
        obtain rfl : operation = operation' := Option.some.inj (hfound.symm.trans hoperation')
        simp [SendOperation.settled, not_not.mp hpreparing]

theorem quiet_send {uuid : Uuid} {command : SendCommand} {sendingId : ℤ}
    (hsession : Session owner s (.send uuid command sendingId)) :
    Quiet owner s (s.send uuid command sendingId) := by
  have hput : ∀ account after, s.accounts uuid = some account →
      (uuid = owner.uuid → Evolves owner.operation account after) →
      Quiet owner s { s with accounts := Function.update s.accounts uuid (some after) } := by
    intro account after haccount hevolves
    refine quiet_put ?_
    intro huuid account' haccount'
    obtain rfl : account = account' := Option.some.inj (haccount.symm.trans haccount')
    exact ⟨after, rfl, hevolves huuid⟩
  have hprune : ∀ account, s.accounts uuid = some account → uuid = owner.uuid →
      Evolves owner.operation account (account.prune s.now) := by
    intro account haccount huuid
    refine evolves_prune ?_
    intro operation hoperation
    refine hsession huuid operation ?_
    unfold State.operation
    rw [← huuid, haccount]
    exact hoperation
  rcases State.send_cases s uuid command sendingId with
    heq | ⟨account, haccount, ⟨after, hafter, heq⟩ | ⟨client, hmade, hnone, heq⟩⟩ <;> rw [heq]
  · exact Quiet.refl owner s
  · rcases hafter with rfl | rfl
    · exact hput _ _ haccount fun _ => Evolves.refl _ _
    · exact hput _ _ haccount (hprune _ haccount)
  · have hmade := hput account { account.prune s.now with
        sends := (account.prune s.now).sends ++
          [(command.operationId, account.created command sendingId s.now)]
        sendingIds := (account.prune s.now).sendingIds ++ [(sendingId, command.operationId)] }
      haccount fun huuid => (hprune _ haccount huuid).trans evolves_append
    refine hmade.trans ?_
    have hstage : (if command.replyTo ≠ 0 then .original else .marking : Stage) ≠ .handing := by
      split <;> exact Stage.noConfusion
    exact quiet_spawn hstage

theorem moves_step (event : Event) (hsession : Session owner s event) :
    Moves owner s (step s event) := by
  cases event with
  | elapse seconds =>
    exact Moves.quiet ⟨rfl, fun _ hn => hn, fun operation hoperation =>
      ⟨operation, hoperation, SendOperation.Advances.refl operation⟩⟩
  | status uuid status =>
    refine Moves.quiet (quiet_put ?_)
    intro _ account haccount
    exact ⟨_, rfl, by rw [haccount]; exact evolves_of_sends rfl⟩
  | forget uuid | resetSession uuid =>
    refine Moves.quiet (quiet_put ?_)
    intro huuid
    exact absurd huuid hsession
  | send uuid command sendingId => exact Moves.quiet (quiet_send hsession)
  | ask thread throws =>
    simp only [step]
    split
    · rename_i task htask
      exact moves_ask htask
    · exact Moves.quiet (Quiet.refl owner s)
  | take thread =>
    simp only [step]
    split
    · split
      · exact Moves.quiet quiet_answered
      · exact Moves.quiet (Quiet.refl owner s)
    · exact Moves.quiet (Quiet.refl owner s)
  | timeOut thread =>
    simp only [step]
    split
    · split
      · split
        · refine Moves.quiet (Quiet.trans ?_ quiet_answered)
          exact quiet_broker rfl
        · exact Moves.quiet (Quiet.refl owner s)
      · exact Moves.quiet (Quiet.refl owner s)
    · exact Moves.quiet (Quiet.refl owner s)
  | mark thread =>
    simp only [step]
    split
    · exact moves_mark
    · exact Moves.quiet (Quiet.refl owner s)
  | respond requestId clientId object =>
    refine Moves.quiet (quiet_broker ?_)
    rw [TdRequestBroker.transport_complete]
    rfl
  | newMessage uuid message => exact Moves.quiet (quiet_change fun _ => evolves_bindPending _)
  | sendSucceeded uuid oldId message =>
    exact Moves.quiet (quiet_change fun _ => evolves_succeeded _ _ _)
  | sendFailed uuid oldId message error =>
    exact Moves.quiet (quiet_change fun _ => evolves_failed _ _ _ _)
  | requestIdentity clientId throws =>
    refine Moves.quiet (quiet_broker ?_)
    unfold TdRequestBroker.requestIdentity
    split
    · rfl
    · split
      · rfl
      · simp [State.handovers, TdFunction.owner]
  | expire | start | stop => exact Moves.quiet (quiet_broker rfl)

end Moves

/-- The message of an operation is handed over once, by the thread that made the operation
`dispatching`, after `base` times before the session. -/
structure Once (base : ℕ) (owner : Owner) (s : State) : Prop where
  handovers : s.handovers owner = base ∨ s.handovers owner = base + 1
  single : ∀ n m, Handing s owner n → Handing s owner m → n = m
  handing : ∀ n, Handing s owner n → s.handovers owner = base
  /-- Once a thread is about to hand it over or has done so, it is not prepared again. -/
  marked : (s.handovers owner ≠ base ∨ ∃ n, Handing s owner n) →
    ∃ operation, s.operation owner = some operation ∧ operation.state ≠ .preparing

theorem marked_of_advances (hoperation : ∀ operation, s.operation owner = some operation →
      ∃ after, s'.operation owner = some after ∧ operation.Advances after)
    (h : ∃ operation, s.operation owner = some operation ∧ operation.state ≠ .preparing) :
    ∃ operation, s'.operation owner = some operation ∧ operation.state ≠ .preparing := by
  obtain ⟨operation, hbefore, hstate⟩ := h
  obtain ⟨after, hafter, hadvances⟩ := hoperation operation hbefore
  exact ⟨after, hafter, hadvances.prepared hstate⟩

theorem Once.moves {base : ℕ} (h : Once base owner s) (hmoves : Moves owner s s') :
    Once base owner s' := by
  cases hmoves with
  | quiet hquiet =>
    constructor
    · rw [hquiet.handovers]
      exact h.handovers
    · intro n m hn hm
      exact h.single n m (hquiet.handing n hn) (hquiet.handing m hm)
    · intro n hn
      rw [hquiet.handovers]
      exact h.handing n (hquiet.handing n hn)
    · intro hcase
      refine marked_of_advances hquiet.operation (h.marked ?_)
      rw [hquiet.handovers] at hcase
      exact hcase.imp_right fun ⟨n, hn⟩ => ⟨n, hquiet.handing n hn⟩
  | hands n handing handovers rest operation =>
    have hbase := h.handing n handing
    -- the thread was the only one
    have hnone : ∀ m, ¬ Handing s' owner m := by
      intro m hm
      obtain ⟨hold, hne⟩ := rest m hm
      exact hne (h.single m n hold handing)
    constructor
    · exact Or.inr (by rw [handovers, hbase])
    · intro m _ hm
      exact absurd hm (hnone m)
    · intro m hm
      exact absurd hm (hnone m)
    · intro _
      rw [operation]
      exact h.marked (Or.inr ⟨n, handing⟩)
  | marks n operation after before preparing now dispatching handovers rest =>
    -- an operation in its preparation has not been handed over, and no thread is about to
    have hfresh : s.handovers owner = base ∧ ∀ m, ¬ Handing s owner m := by
      have hnot : ¬ (s.handovers owner ≠ base ∨ ∃ n, Handing s owner n) := by
        intro hcase
        obtain ⟨other, hother, hstate⟩ := h.marked hcase
        obtain rfl : operation = other := Option.some.inj (before.symm.trans hother)
        exact hstate preparing
      obtain ⟨hbase, hhanding⟩ := not_or.mp hnot
      exact ⟨not_not.mp hbase, fun m hm => hhanding ⟨m, hm⟩⟩
    have honly : ∀ m, Handing s' owner m → m = n := by
      intro m hm
      exact (rest m hm).resolve_left (hfresh.2 m)
    constructor
    · exact Or.inl (by rw [handovers, hfresh.1])
    · intro m m' hm hm'
      rw [honly m hm, honly m' hm']
    · intro m _
      rw [handovers, hfresh.1]
    · intro _
      exact ⟨after, now, by rw [dispatching]; exact OperationState.noConfusion⟩

theorem Moves.operation (h : Moves owner s s') (operation : SendOperation)
    (hoperation : s.operation owner = some operation) :
    ∃ after, s'.operation owner = some after ∧ operation.Advances after := by
  cases h with
  | quiet hquiet => exact hquiet.operation operation hoperation
  | hands n _ _ _ hsame =>
    exact ⟨operation, by rw [hsame, hoperation], SendOperation.Advances.refl operation⟩
  | marks n other after before preparing now dispatching _ _ =>
    obtain rfl : other = operation := Option.some.inj (before.symm.trans hoperation)
    refine ⟨after, now, SendOperation.Advances.of_open ?_ ?_⟩
    · simp [SendOperation.settled, preparing]
    · rw [dispatching]
      exact OperationState.noConfusion

theorem record_conflict {account : Account} {command : SendCommand} {existing : SendOperation}
    {now : ℕ} (sendingId : ℤ) (htombstone : account.status.tombstone = false)
    (hgeneration : account.status.generation = command.generation)
    (hfence : (readFence account.status).isSome)
    (hexisting : account.operation command.operationId = some existing)
    (hretained : existing.Retained now)
    (hother : existing.chatId ≠ command.chatId ∨ existing.replyTo ≠ command.replyTo) :
    (account.record command sendingId now).2 = .error "operation.conflict" := by
  obtain ⟨client, hclient⟩ := Option.isSome_iff_exists.mp hfence
  have hpruned := Account.operation_prune hexisting hretained
  unfold Account.record
  rw [if_neg (by simp [htombstone]), if_neg (by simp [hgeneration]), hclient]
  dsimp only
  split
  · rfl
  · rw [hpruned]
    dsimp only
    rw [if_pos hother]

theorem send_of_error {uuid : Uuid} {account : Account} {command : SendCommand} {sendingId : ℤ}
    {error : String} (haccount : s.accounts uuid = some account)
    (herror : (account.record command sendingId s.now).2 = .error error) :
    ∃ after, (after = account ∨ after = account.prune s.now) ∧
      s.send uuid command sendingId =
        { s with accounts := Function.update s.accounts uuid (some after) } := by
  rcases State.send_cases s uuid command sendingId with
    heq | ⟨account', haccount', hcase⟩
  · refine ⟨account, Or.inl rfl, ?_⟩
    rw [heq, ← haccount, Function.update_eq_self]
  · obtain rfl : account = account' := Option.some.inj (haccount.symm.trans haccount')
    rcases hcase with hkept | ⟨client, hmade, -⟩
    · exact hkept
    · rw [herror] at hmade
      exact absurd hmade (by simp)

/-- **One message for each operation.** In a session that begins while no thread stands between
making the operation `dispatching` and handing its message over, the message is handed over at most
once, however often it is sent. An outcome stays as it is. And a message for another chat or
another reply under the id of an operation that is there is refused and leaves everything as it is,
but for the operations that are too old. -/
theorem one_message_of_run {events : List Event}
    (hrun : Run (Within (Session owner) fun s event s' => step s event = s') s events s') :
    ((∀ n, ¬ Handing s owner n) → s'.handovers owner ≤ s.handovers owner + 1) ∧
    (∀ operation, s.operation owner = some operation → operation.settled →
      ∃ after, s'.operation owner = some after ∧ after.state = operation.state ∧
        after.error = operation.error ∧ after.retryAfter = operation.retryAfter ∧
        after.retryable = operation.retryable) ∧
    ∀ account command sendingId existing, s'.accounts owner.uuid = some account →
      account.status.tombstone = false → account.status.generation = command.generation →
      (readFence account.status).isSome → command.operationId = owner.operation →
      s'.operation owner = some existing → existing.Retained s'.now →
      (existing.chatId ≠ command.chatId ∨ existing.replyTo ≠ command.replyTo) →
      (account.record command sendingId s'.now).2 = .error "operation.conflict" ∧
        ∃ after, (after = account ∨ after = account.prune s'.now) ∧
          step s' (.send owner.uuid command sendingId) =
            { s' with accounts := Function.update s'.accounts owner.uuid (some after) } := by
  refine ⟨?_, ?_, ?_⟩
  · intro hstart
    have honce : Once (s.handovers owner) owner s' := by
      refine hrun.invariant (Once (s.handovers owner) owner) ?_ ?_
      · rintro t event _ h ⟨hsession, rfl⟩
        exact h.moves (moves_step event hsession)
      · refine ⟨Or.inl rfl, fun n _ hn => absurd hn (hstart n), fun _ _ => rfl, ?_⟩
        rintro (hne | ⟨n, hn⟩)
        · exact absurd rfl hne
        · exact absurd hn (hstart n)
    rcases honce.handovers with heq | heq <;> omega
  · intro operation hoperation hsettled
    have hafter : ∃ after, s'.operation owner = some after ∧ operation.Advances after := by
      refine hrun.invariant
        (fun t => ∃ after, t.operation owner = some after ∧ operation.Advances after) ?_
        ⟨operation, hoperation, SendOperation.Advances.refl operation⟩
      rintro t event _ ⟨middle, hmiddle, hadvances⟩ ⟨hsession, rfl⟩
      obtain ⟨after, hafter, hadvances'⟩ :=
        (moves_step event hsession).operation middle hmiddle
      exact ⟨after, hafter, hadvances.trans hadvances'⟩
    obtain ⟨after, hfound, hadvances⟩ := hafter
    exact ⟨after, hfound, hadvances.outcome hsettled⟩
  · intro account command sendingId existing haccount htombstone hgeneration hfence hid hexisting
      hretained hother
    have hfound : account.operation command.operationId = some existing := by
      unfold State.operation at hexisting
      rw [haccount] at hexisting
      rw [hid]
      exact hexisting
    have hconflict := record_conflict sendingId htombstone hgeneration hfence hfound hretained hother
    exact ⟨hconflict, send_of_error haccount hconflict⟩

def sentAgain : List Event := handedOver ++ [.send 1 ⟨7, 0, 1, 9, 0, "hi"⟩ 4]

/-- The message that is sent again is handed over once. -/
theorem one_message_of_run_again :
    (sentAgain.foldl step {}).handovers ⟨1, 7⟩ ≤ 1 ∧
      (sentAgain.foldl step {}).handovers ⟨1, 7⟩ = 1 := by
  have hnone : Session ⟨1, 7⟩ (step {} (.status 1 sendingStatus))
      (.send 1 ⟨7, 0, 1, 9, 0, "hi"⟩ 3) := by
    intro _ operation hoperation
    have hempty : (step {} (.status 1 sendingStatus)).operation ⟨1, 7⟩ = none := by decide
    exact absurd (hempty.symm.trans hoperation) (by simp)
  have hagain : Session ⟨1, 7⟩ (handedOver.foldl step {}) (.send 1 ⟨7, 0, 1, 9, 0, "hi"⟩ 4) := by
    intro _ operation hoperation
    obtain rfl : _ = operation := Option.some.inj hoperation
    decide
  have hrun : Run (Within (Session ⟨1, 7⟩) fun s event s' => step s event = s') {} sentAgain
      (sentAgain.foldl step {}) :=
    (((((Run.nil _).snoc ⟨trivial, rfl⟩).snoc ⟨hnone, rfl⟩).snoc ⟨trivial, rfl⟩).snoc
      ⟨trivial, rfl⟩).snoc ⟨hagain, rfl⟩
  refine ⟨(one_message_of_run hrun).1 ?_, by decide⟩
  rintro n ⟨task, htask, -⟩
  exact absurd htask (by simp)

/-- The message of operation 7 is refused; a day less a second later operation 8 is made. -/
def aDayLater : List Event :=
  refusedByTdlib ++ [.elapse 86399, .send 1 ⟨8, 0, 1, 9, 0, "hi"⟩ 4, .elapse 1]

/-- Operation 7 becomes `dispatching`, the session is reset, and its id is used again. -/
def acrossSessions : List Event :=
  [.status 1 sendingStatus, .send 1 ⟨7, 0, 1, 9, 0, "hi"⟩ 3, .mark 0, .resetSession 1]

/-- A message that is refused because operation 8 is there drops operation 7, which is too old.
And after a reset two messages of operation 7 are handed over: that of the dispatch which had
made it `dispatching` before, and that of the new one. -/
theorem conflict_drops_operation :
    (((aDayLater.foldl step {}).accounts 1).map fun account =>
        (account.record ⟨8, 0, 1, 10, 0, "hi"⟩ 5 (aDayLater.foldl step {}).now).2) =
      some (.error "operation.conflict") ∧
    ((aDayLater.foldl step {}).operation ⟨1, 7⟩).map SendOperation.state = some .failed ∧
    (step (aDayLater.foldl step {}) (.send 1 ⟨8, 0, 1, 10, 0, "hi"⟩ 5)).operation ⟨1, 7⟩ = none ∧
    (acrossSessions.foldl step {}).handovers ⟨1, 7⟩ = 0 ∧
    ([.send 1 ⟨7, 0, 1, 9, 0, "hi"⟩ 4, .mark 1, .ask 1 false, .ask 0 false].foldl step
      (acrossSessions.foldl step {})).handovers ⟨1, 7⟩ = 2 := by
  decide

end Runtime
