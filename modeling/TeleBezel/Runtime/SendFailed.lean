import TeleBezel.Lib.Transition
import TeleBezel.Runtime.MessageSend

/-!
# What a failed send means

An operation that has failed was not taken by TDLib: its message was never handed to the
transport, or TDLib answered it with an error, or reported that its temporary message could not be
sent. Two things break this. When the broker stops, the promise of a message that the transport
has is set with the same error as one that was never handed over, and `dispatch` takes it for
that. And when an operation is made again under an id whose first dispatch has not come to an end,
or whose message is with TDLib, the new one fails for reasons that say nothing of the old one.
-/

open List

namespace Runtime

open Transition Function

variable {s : State}

def State.handed (s : State) (owner : Owner) : Bool :=
  s.broker.transport.any fun request => request.function.owner = some owner

/-- TDLib answered the message of an operation with an error, or reported that its temporary
message could not be sent. -/
def FailureSeen (s : State) (owner : Owner) : Prop :=
  owner ∈ s.refused ∨ ∃ x ∈ s.temporaries, x.1 = owner ∧ (owner.uuid, x.2.1, x.2.2) ∈ s.sendFailed

/-- It was not handed over, or it has failed there. -/
def Justified (s : State) (owner : Owner) : Prop := s.handed owner = false ∨ FailureSeen s owner

def Running (s : State) (owner : Owner) : Prop :=
  ∃ n task, s.tasks n = some task ∧ task.call.owner = owner

def Unsettled (s : State) (owner : Owner) : Prop :=
  ∃ account, s.accounts owner.uuid = some account ∧
    ∃ item ∈ account.sends, item.1 = owner.operation ∧ item.2.settled = false

/-- The broker stops only when no operation without an outcome waits for its message, and an
operation is made under an id only when no thread dispatches an earlier one and the message of an
earlier one was not taken. Every other event is free. -/
def Careful (s : State) : Event → Prop
  | .stop => ∀ id item, (id, item) ∈ s.broker.pending →
      ∀ owner, item.function.owner = some owner → ¬ Unsettled s owner
  | .send uuid command sendingId => ∀ account client, s.accounts uuid = some account →
      (account.record command sendingId s.now).2 = .ok (some client) →
        ¬ Running s ⟨uuid, command.operationId⟩ ∧ Justified s ⟨uuid, command.operationId⟩
  | _ => True

def Stage.sending : Stage → Option RequestHandle
  | .awaiting handle => if handle.pending then some handle else none
  | _ => none

/-- A call waits for the answer to its message: an error is the answer of TDLib, or comes too late
to matter. -/
structure Waits (s : State) (call : Call) (handle : RequestHandle) : Prop where
  transport : (⟨handle.requestId, handle.clientId, State.sendRequest call⟩ : Request) ∈
    s.broker.transport
  answer : ∀ code text, s.broker.answers handle.requestId = some (some (.error code text)) →
    call.owner ∈ s.refused ∨ ¬ Unsettled s call.owner

/-- What a thread rests on: until its message is handed over its operation may be called
failed. -/
def Task.Sound (s : State) (task : Task) : Prop :=
  match task.stage.sending with
  | some handle => Waits s task.call handle
  | none => Justified s task.call.owner

structure Sound (s : State) : Prop where
  broker : s.broker.Sound
  below : ∀ n task, s.tasks n = some task → n < s.next
  task : ∀ n task, s.tasks n = some task → task.Sound s
  single : ∀ n task m other, s.tasks n = some task → s.tasks m = some other →
    task.call.owner = other.call.owner → n = m
  keys : ∀ uuid account, s.accounts uuid = some account → account.Keys
  failed : ∀ uuid account, s.accounts uuid = some account → ∀ item ∈ account.sends,
    item.2.state = .failed → FailureSeen s ⟨uuid, item.1⟩ ∨
      (s.handed ⟨uuid, item.1⟩ = false ∧ ¬ Running s ⟨uuid, item.1⟩)
  bound : ∀ uuid account, s.accounts uuid = some account → ∀ item ∈ account.sendMessages,
    ((⟨uuid, item.2⟩ : Owner), item.1.1, item.1.2) ∈ s.temporaries

/-- An account after a change of its operations: outcomes stay, and an operation that has failed
had failed before or may be called so; the messages that stand for operations are old or new. -/
structure Follows (ok : Uuid → Prop) (new : List ((ℤ × ℤ) × Uuid)) (a b : Account) : Prop where
  keys : a.Keys → b.Keys
  sends : a.Keys → ∀ item ∈ b.sends, ∃ before ∈ a.sends, before.1 = item.1 ∧
    (before.2.settled → item.2.settled) ∧
    (item.2.state = .failed → before.2.state = .failed ∨ ok item.1)
  messages : ∀ x ∈ b.sendMessages, x ∈ a.sendMessages ∨ x ∈ new

section Follows

variable {ok : Uuid → Prop} {new : List ((ℤ × ℤ) × Uuid)} {a b c : Account}

theorem Follows.refl (a : Account) : Follows ok new a a :=
  ⟨fun h => h, fun _ item hitem => ⟨item, hitem, rfl, fun h => h, Or.inl⟩, fun _ => Or.inl⟩

theorem Follows.trans (h : Follows ok new a b) (h' : Follows ok new b c) : Follows ok new a c := by
  refine ⟨fun hkeys => h'.keys (h.keys hkeys), ?_, ?_⟩
  · intro hkeys item hitem
    obtain ⟨middle, hmiddle, hid, hsettled, hfailed⟩ := h'.sends (h.keys hkeys) item hitem
    obtain ⟨before, hbefore, hid', hsettled', hfailed'⟩ := h.sends hkeys middle hmiddle
    refine ⟨before, hbefore, hid'.trans hid, fun hs => hsettled (hsettled' hs), ?_⟩
    intro hitemFailed
    rcases hfailed hitemFailed with hmiddleFailed | hok
    · rw [← hid]
      exact hfailed' hmiddleFailed
    · exact Or.inr hok
  · intro x hx
    rcases h'.messages x hx with hmiddle | hnew
    · exact h.messages x hmiddle
    · exact Or.inr hnew

theorem follows_modify_of_forall (id : Uuid) (change : SendOperation → SendOperation)
    (hsettled : a.Keys → ∀ operation, (id, operation) ∈ a.sends → operation.settled →
      (change operation).settled)
    (hfailed : a.Keys → ∀ operation, (id, operation) ∈ a.sends →
      (change operation).state = .failed → operation.state = .failed ∨ ok id) :
    Follows ok new a (a.modify id change) := by
  refine ⟨fun hkeys => hkeys.modify id change, ?_, fun x hx => Or.inl hx⟩
  · intro hkeys item hitem
    obtain ⟨⟨other, operation⟩, hbefore, rfl⟩ := mem_map.mp hitem
    refine ⟨(other, operation), hbefore, (Account.fst_modified id change _).symm, ?_, ?_⟩
    · split
      · rename_i hid
        obtain rfl : other = id := hid
        exact hsettled hkeys operation hbefore
      · exact fun h => h
    · split
      · rename_i hid
        obtain rfl : other = id := hid
        exact hfailed hkeys operation hbefore
      · exact Or.inl

variable {id : Uuid} {operation : SendOperation} {change : SendOperation → SendOperation}

theorem follows_modify (hoperation : a.operation id = some operation)
    (hsettled : operation.settled → (change operation).settled)
    (hfailed : (change operation).state = .failed → operation.state = .failed ∨ ok id) :
    Follows ok new a (a.modify id change) := by
  have hentry : a.Keys → ∀ other, (id, other) ∈ a.sends → other = operation := by
    intro hkeys other hother
    exact congrArg Prod.snd (hkeys _ hother _ (Account.operation_eq hoperation) rfl)
  refine follows_modify_of_forall id change ?_ ?_
  · intro hkeys other hother
    rw [hentry hkeys other hother]
    exact hsettled
  · intro hkeys other hother
    rw [hentry hkeys other hother]
    exact hfailed

theorem follows_fewer {sends : List (Uuid × SendOperation)} {messages : List ((ℤ × ℤ) × Uuid)}
    {sendingIds : List (ℤ × Uuid)} {status : Status} (hsends : ∀ x ∈ sends, x ∈ a.sends)
    (hmessages : ∀ x ∈ messages, x ∈ a.sendMessages) :
    Follows ok new a ⟨status, sends, messages, sendingIds⟩ :=
  ⟨fun hkeys x hx y hy => hkeys x (hsends x hx) y (hsends y hy),
    fun _ item hitem => ⟨item, hsends item hitem, rfl, fun h => h, Or.inl⟩,
    fun x hx => Or.inl (hmessages x hx)⟩

theorem follows_freeSendingId (sendingId : ℤ) : Follows ok new a (a.freeSendingId sendingId) :=
  follows_fewer (fun _ hx => hx) (fun _ hx => hx)

theorem follows_bind {key : ℤ × ℤ} (hnew : (key, id) ∈ new) :
    Follows ok new a (a.bind key id) := by
  refine ⟨fun h => h, fun _ item hitem => ⟨item, hitem, rfl, fun h => h, Or.inl⟩, ?_⟩
  intro x hx
  rcases mem_append.mp hx with hold | hlast
  · exact Or.inl (mem_filter.mp hold).1
  · rw [mem_singleton.mp hlast]
    exact Or.inr hnew

theorem follows_prune (now : ℕ) : Follows ok new a (a.prune now) :=
  follows_fewer (fun _ hx => (mem_filter.mp hx).1) (fun _ hx => (mem_filter.mp hx).1)

theorem follows_resetSession : Follows ok new a a.resetSession :=
  follows_fewer (fun _ hx => absurd hx not_mem_nil) (fun _ hx => absurd hx not_mem_nil)

variable {now : ℕ}

theorem follows_finish {failure : SendFailure}
    (hok : ∀ operation, a.operation id = some operation → operation.settled = false → ok id) :
    Follows ok new a (a.finish id failure now) := by
  unfold Account.finish
  split
  · exact Follows.refl a
  · rename_i operation hoperation
    split
    · exact Follows.refl a
    · rename_i hopen
      refine (follows_modify hoperation (fun _ => rfl) ?_).trans (follows_freeSendingId _)
      intro _
      exact Or.inr (hok operation hoperation (by simpa using hopen))

theorem follows_given (given : Prop) [Decidable given] (message : TdMessage)
    (hoperation : a.operation id = some operation)
    (hnew : given → ((message.chatId, message.id), id) ∈ new) :
    Follows ok new a (if given then
        (a.modify id fun operation => { operation with temporaryId := message.id }).bind
          (message.chatId, message.id) id
      else a) := by
  split
  · rename_i hgiven
    exact (follows_modify hoperation (fun h => h) Or.inl).trans (follows_bind (hnew hgiven))
  · exact Follows.refl a

theorem follows_move (hoperation : a.operation id = some operation)
    (hopen : operation.settled = false) (hmoved : (change operation).state ≠ .failed) :
    Follows ok new a (a.modify id change) :=
  follows_modify hoperation (fun h => absurd h (by simp [hopen])) (fun h => absurd h hmoved)

variable {message : TdMessage}

theorem follows_accepted {replyTo sendingId : ℤ}
    (hnew : ∀ operation, a.operation id = some operation → operation.temporaryId = 0 →
      message.sendingState.isSome → ((message.chatId, message.id), id) ∈ new) :
    Follows ok new a (a.accepted id replyTo sendingId message now) := by
  unfold Account.accepted
  split
  · exact Follows.refl a
  · rename_i operation hoperation
    have hgiven : Follows ok new a _ :=
      follows_given (operation.temporaryId = 0 ∧ message.sendingState.isSome) message hoperation
        (fun h => hnew operation hoperation h.1 h.2)
    obtain ⟨after, hafter, hstate, -⟩ := Account.operation_given
      (operation.temporaryId = 0 ∧ message.sendingState.isSome) message hoperation
    dsimp only
    split
    · exact hgiven
    · rename_i hdispatching
      have hopen : after.settled = false := by
        simp [SendOperation.settled, hstate, not_not.mp hdispatching]
      split
      · exact hgiven.trans (follows_move hafter hopen (by simp))
      · exact (hgiven.trans (follows_move hafter hopen (by simp))).trans
          (follows_freeSendingId _)

theorem follows_bindPending
    (hnew : ∀ id, State.bound a message = some id → ((message.chatId, message.id), id) ∈ new) :
    Follows ok new a (a.bindPending message) := by
  unfold Account.bindPending
  split
  · rename_i sendingId hsending
    split
    · exact Follows.refl a
    · rename_i _ id howner
      split
      · exact Follows.refl a
      · rename_i operation hoperation
        split
        · exact Follows.refl a
        · rename_i hchat
          have hbound : operation.temporaryId = 0 →
              ((message.chatId, message.id), id) ∈ new := by
            intro htemporary
            refine hnew id ?_
            simp only [State.bound, hsending, howner, hoperation]
            rw [if_neg]
            exact not_or.mpr ⟨hchat, not_not.mpr htemporary⟩
          have hgiven : Follows ok new a _ :=
            follows_given (operation.temporaryId = 0) message hoperation hbound
          obtain ⟨after, hafter, hstate, -⟩ :=
            Account.operation_given (operation.temporaryId = 0) message hoperation
          dsimp only
          split
          · rename_i hearly
            have hopen : after.settled = false := by
              rcases hearly with h | h <;> simp [SendOperation.settled, hstate, h]
            exact hgiven.trans (follows_move hafter hopen (by simp))
          · exact hgiven
  · exact Follows.refl a

theorem follows_succeeded {oldId : ℤ} :
    Follows ok new a (a.succeeded oldId message now) := by
  unfold Account.succeeded
  split
  · exact Follows.refl a
  · rename_i key id _
    have herased : Follows ok new a
        { a with sendMessages := a.sendMessages.filter fun item => item.1 ≠ key } :=
      follows_fewer (fun _ hx => hx) (fun _ hx => (mem_filter.mp hx).1)
    dsimp only
    split
    · exact herased
    · rename_i operation hoperation
      split
      · exact herased
      · rename_i hopen
        exact (herased.trans (follows_move hoperation (by simpa using hopen) (by simp))).trans
          (follows_freeSendingId _)

theorem follows_failed {oldId : ℤ} {error : Option (ℤ × String)}
    (hok : ∀ id, ((message.chatId, oldId), id) ∈ a.sendMessages → ok id) :
    Follows ok new a (a.failed oldId message error now) := by
  unfold Account.failed
  split
  · exact Follows.refl a
  · rename_i key id hfound
    have hmem : (key, id) ∈ a.sendMessages := mem_of_find?_eq_some hfound
    obtain rfl : key = (message.chatId, oldId) := by simpa using List.find?_some hfound
    have herased : Follows ok new a { a with
        sendMessages := a.sendMessages.filter fun item => item.1 ≠ (message.chatId, oldId) } :=
      follows_fewer (fun _ hx => hx) (fun _ hx => (mem_filter.mp hx).1)
    have hnamed : Follows ok new _ _ := herased.trans
      (follows_modify_of_forall id (fun operation => { operation with messageId := message.id })
        (fun _ _ _ hs => hs) (fun _ _ _ hf => Or.inl hf))
    exact hnamed.trans (follows_finish fun _ _ _ => hok id hmem)

end Follows

section Threads

theorem FailureSeen.mono {s' : State} {owner : Owner} (h : FailureSeen s owner)
    (hrefused : ∀ x ∈ s.refused, x ∈ s'.refused)
    (htemporaries : ∀ x ∈ s.temporaries, x ∈ s'.temporaries)
    (hsendFailed : ∀ x ∈ s.sendFailed, x ∈ s'.sendFailed) : FailureSeen s' owner := by
  rcases h with hmem | ⟨x, hx, howner, hfailed⟩
  · exact Or.inl (hrefused owner hmem)
  · exact Or.inr ⟨x, htemporaries x hx, howner, hsendFailed _ hfailed⟩

theorem Task.Sound.mono {s' : State} {task : Task} (h : task.Sound s)
    (hjustified : Justified s task.call.owner → Justified s' task.call.owner)
    (hwaits : ∀ handle, Waits s task.call handle → Waits s' task.call handle) : task.Sound s' := by
  unfold Task.Sound at h ⊢
  cases hsending : task.stage.sending with
  | some handle =>
    rw [hsending] at h
    exact hwaits handle h
  | none =>
    rw [hsending] at h
    exact hjustified h

variable {n m : ℕ} {task other : Task} {call : Call} {stage : Stage} {owner : Owner}

theorem running_goOn (htask : s.tasks n = some task)
    (h : Running (s.goOn n task.call stage) owner) : Running s owner := by
  obtain ⟨m, other, hother, howner⟩ := h
  rcases State.tasks_goOn hother with ⟨-, rfl⟩ | ⟨-, hold⟩
  · exact ⟨n, task, htask, howner⟩
  · exact ⟨m, other, hold, howner⟩

theorem running_drop (h : Running (s.drop n) owner) : Running s owner := by
  obtain ⟨m, other, hother, howner⟩ := h
  exact ⟨m, other, (State.tasks_drop hother).2, howner⟩

theorem call_goOn (htask : s.tasks n = some task)
    (h : (s.goOn n task.call stage).tasks m = some other) :
    ∃ before, s.tasks m = some before ∧ before.call = other.call := by
  rcases State.tasks_goOn h with ⟨rfl, rfl⟩ | ⟨-, hold⟩
  · exact ⟨task, htask, rfl⟩
  · exact ⟨other, hold, rfl⟩

section

variable (h : Sound s) (htask : s.tasks n = some task)
include h htask

theorem Sound.below_goOn
    (hother : (s.goOn n task.call stage).tasks m = some other) : m < s.next := by
  obtain ⟨before, hbefore, -⟩ := call_goOn htask hother
  exact h.below m before hbefore

theorem Sound.single_goOn {m' : ℕ} {other' : Task}
    (hother : (s.goOn n task.call stage).tasks m = some other)
    (hother' : (s.goOn n task.call stage).tasks m' = some other')
    (howner : other.call.owner = other'.call.owner) : m = m' := by
  obtain ⟨before, hbefore, hcall⟩ := call_goOn htask hother
  obtain ⟨before', hbefore', hcall'⟩ := call_goOn htask hother'
  rw [← hcall, ← hcall'] at howner
  exact h.single m before m' before' hbefore hbefore' howner

theorem Sound.goOn
    (hstage : Task.Sound s ⟨task.call, stage⟩) : Sound (s.goOn n task.call stage) := by
  refine { h with
    below := fun _ _ => h.below_goOn htask
    task := ?_
    single := fun _ _ _ _ => h.single_goOn htask
    failed := ?_ }
  · intro m other hother
    have hsound : other.Sound s := by
      rcases State.tasks_goOn hother with ⟨rfl, rfl⟩ | ⟨-, hold⟩
      · exact hstage
      · exact h.task m other hold
    exact hsound.mono (fun hjustified => hjustified) (fun _ hwaits => ⟨hwaits.1, hwaits.2⟩)
  · intro uuid account haccount item hitem hfailed
    exact (h.failed uuid account haccount item hitem hfailed).imp_right
      (fun ⟨hhanded, hrunning⟩ => ⟨hhanded, fun hr => hrunning (running_goOn htask hr)⟩)

end

theorem Sound.drop (h : Sound s) (n : ℕ) : Sound (s.drop n) := by
  refine { h with below := ?_, task := ?_, single := ?_, failed := ?_ }
  · intro m other hother
    exact h.below m other (State.tasks_drop hother).2
  · intro m other hother
    exact (h.task m other (State.tasks_drop hother).2).mono (fun hjustified => hjustified)
      (fun _ hwaits => ⟨hwaits.1, hwaits.2⟩)
  · intro m other m' other' hother hother'
    exact h.single m other m' other' (State.tasks_drop hother).2 (State.tasks_drop hother').2
  · intro uuid account haccount item hitem hfailed
    exact (h.failed uuid account haccount item hitem hfailed).imp_right
      (fun ⟨hhanded, hrunning⟩ => ⟨hhanded, fun hr => hrunning (running_drop hr)⟩)

theorem Sound.not_running (h : Sound s) (htask : s.tasks n = some task) :
    ¬ Running (s.drop n) task.call.owner := by
  rintro ⟨m, other, hother, howner⟩
  obtain ⟨hne, hold⟩ := State.tasks_drop hother
  exact hne (h.single m other n task hold htask howner)

end Threads

section Accounts

variable {uuid : Uuid} {ok : Uuid → Prop} {new : List ((ℤ × ℤ) × Uuid)} {after : Option Account}
  {temporaries : List (Owner × ℤ × ℤ)} {sendFailed : List (Uuid × ℤ × ℤ)}

theorem Sound.keys_getD (h : Sound s) (uuid : Uuid) : ((s.accounts uuid).getD {}).Keys := by
  cases haccount : s.accounts uuid with
  | none =>
    intro x hx
    exact absurd hx not_mem_nil
  | some account => exact h.keys uuid account haccount

theorem mem_getD {item : Uuid × SendOperation} (h : item ∈ ((s.accounts uuid).getD {}).sends) :
    ∃ account, s.accounts uuid = some account ∧ item ∈ account.sends := by
  cases haccount : s.accounts uuid with
  | none =>
    rw [haccount] at h
    exact absurd h not_mem_nil
  | some account =>
    rw [haccount] at h
    exact ⟨account, rfl, h⟩

section

variable (h : Sound s) (hafter : ∀ account, after = some account → Follows ok new ((s.accounts
  uuid).getD {}) account)
include h hafter

theorem unsettled_put {owner : Owner}
    (hunsettled : Unsettled
      { s with accounts := update s.accounts uuid after, temporaries, sendFailed } owner) :
    Unsettled s owner := by
  obtain ⟨account, haccount, item, hitem, hid, hopen⟩ := hunsettled
  by_cases heq : owner.uuid = uuid
  · subst heq
    have hfollows := hafter account (by simpa using haccount)
    obtain ⟨before, hbefore, hid', hsettled, -⟩ := hfollows.sends (h.keys_getD _) item hitem
    obtain ⟨account', haccount', hmem⟩ := mem_getD hbefore
    refine ⟨account', haccount', before, hmem, hid'.trans hid, ?_⟩
    by_contra hcontra
    have := hsettled (by simpa using hcontra)
    simp [hopen] at this
  · exact ⟨account, by simpa [heq] using haccount, item, hitem, hid, hopen⟩

theorem Sound.put (hok : ∀ id, ok id →
      FailureSeen { s with temporaries, sendFailed } ⟨uuid, id⟩ ∨
        (s.handed ⟨uuid, id⟩ = false ∧ ¬ Running s ⟨uuid, id⟩))
    (hnew : ∀ x ∈ new, ((⟨uuid, x.2⟩ : Owner), x.1.1, x.1.2) ∈ temporaries)
    (htemporaries : ∀ x ∈ s.temporaries, x ∈ temporaries)
    (hsendFailed : ∀ x ∈ s.sendFailed, x ∈ sendFailed) :
    Sound { s with
      accounts := update s.accounts uuid after, temporaries, sendFailed } := by
  have hseen : ∀ owner, FailureSeen s owner → FailureSeen { s with
      accounts := update s.accounts uuid after, temporaries, sendFailed } owner :=
    fun _ hfailure => hfailure.mono (fun _ hx => hx) htemporaries hsendFailed
  refine { h with task := ?_, keys := ?_, failed := ?_, bound := ?_ }
  · intro n task htask
    refine (h.task n task htask).mono (fun hjustified => hjustified.imp_right (hseen _)) ?_
    intro handle hwaits
    refine ⟨hwaits.transport, fun code text hanswer => ?_⟩
    exact (hwaits.answer code text hanswer).imp_right
      (fun hsettled hunsettled => hsettled (unsettled_put h hafter hunsettled))
  · intro other account haccount
    by_cases heq : other = uuid
    · subst heq
      exact (hafter account (by simpa using haccount)).keys (h.keys_getD _)
    · exact h.keys other account (by simpa [heq] using haccount)
  · intro other account haccount item hitem hfailed
    by_cases heq : other = uuid
    · subst heq
      have hfollows := hafter account (by simpa using haccount)
      obtain ⟨before, hbefore, hid, -, hwas⟩ := hfollows.sends (h.keys_getD _) item hitem
      rcases hwas hfailed with hwasFailed | hmay
      · obtain ⟨account', haccount', hmem⟩ := mem_getD hbefore
        rw [← hid]
        exact (h.failed other account' haccount' before hmem hwasFailed).imp_left (hseen _)
      · exact hok item.1 hmay
    · exact (h.failed other account (by simpa [heq] using haccount) item hitem hfailed).imp_left
        (hseen _)
  · intro other account haccount item hitem
    by_cases heq : other = uuid
    · subst heq
      rcases (hafter account (by simpa using haccount)).messages item hitem with hold | hmem
      · cases hbefore : s.accounts other with
        | none =>
          rw [hbefore] at hold
          exact absurd hold not_mem_nil
        | some before =>
          rw [hbefore] at hold
          exact htemporaries _ (h.bound other before hbefore item hold)
      · exact hnew item hmem
    · exact htemporaries _ (h.bound other account (by simpa [heq] using haccount) item hitem)

end

theorem Sound.put_quiet (h : Sound s)
    (hafter : ∀ account, after = some account →
      Follows (fun _ => False) [] ((s.accounts uuid).getD {}) account) :
    Sound { s with accounts := update s.accounts uuid after } :=
  h.put hafter (fun _ hfalse => hfalse.elim) (fun _ hx => absurd hx not_mem_nil)
    (fun _ hx => hx) (fun _ hx => hx)

theorem Sound.change (h : Sound s) {f : Account → Account}
    (hf : ∀ account, s.accounts uuid = some account → Follows ok new account (f account))
    (hok : ∀ id, ok id →
      FailureSeen { s with temporaries, sendFailed } ⟨uuid, id⟩ ∨
        (s.handed ⟨uuid, id⟩ = false ∧ ¬ Running s ⟨uuid, id⟩))
    (hnew : ∀ x ∈ new, ((⟨uuid, x.2⟩ : Owner), x.1.1, x.1.2) ∈ temporaries)
    (htemporaries : ∀ x ∈ s.temporaries, x ∈ temporaries)
    (hsendFailed : ∀ x ∈ s.sendFailed, x ∈ sendFailed) :
    Sound { s.change uuid f with temporaries, sendFailed } := by
  refine h.put ?_ hok hnew htemporaries hsendFailed
  intro account haccount
  obtain ⟨before, hbefore, rfl⟩ := Option.map_eq_some_iff.mp haccount
  rw [hbefore]
  exact hf before hbefore

theorem Sound.change_quiet (h : Sound s) {f : Account → Account}
    (hf : ∀ account, s.accounts uuid = some account →
      Follows (fun _ => False) [] account (f account)) : Sound (s.change uuid f) :=
  h.change hf (fun _ hfalse => hfalse.elim) (fun _ hx => absurd hx not_mem_nil)
    (fun _ hx => hx) (fun _ hx => hx)

end Accounts

section Requests

variable {broker : TdRequestBroker} {refused : List Owner} {n : ℕ} {task : Task} {owner : Owner}

theorem handed_eq_true :
    s.handed owner = true ↔ ∃ request ∈ s.broker.transport, request.function.owner = some owner := by
  simp [State.handed]

section

variable (h : Sound s) (hbroker : broker.Sound) (htransport : ∀ request ∈ s.broker.transport,
  request ∈ broker.transport) (hhanded : ∀ request ∈ broker.transport, request ∈
  s.broker.transport ∨ request.function.owner = none)
include h hbroker htransport hhanded

theorem Sound.served (hrefused : ∀ x ∈ s.refused, x ∈ refused)
    (hanswers : ∀ id code text, broker.answers id = some (some (.error code text)) →
      s.broker.answers id = some (some (.error code text)) ∨
        ∀ request ∈ s.broker.transport, request.id = id →
          ∀ owner, request.function.owner = some owner → owner ∈ refused ∨ ¬ Unsettled s owner) :
    Sound { s with broker, refused } := by
  have hsame : ∀ owner, s.handed owner = false → State.handed { s with broker, refused } owner = false := by
    intro owner hnot
    by_contra hcontra
    obtain ⟨request, hrequest, howner⟩ := handed_eq_true.mp (Bool.not_eq_false _ ▸ hcontra)
    rcases hhanded request hrequest with hold | hnone
    · have htrue : s.handed owner = true := handed_eq_true.mpr ⟨request, hold, howner⟩
      rw [hnot] at htrue
      exact absurd htrue (by decide)
    · rw [hnone] at howner
      exact absurd howner (by simp)
  have hseen : ∀ owner, FailureSeen s owner → FailureSeen { s with broker, refused } owner :=
    fun _ hfailure => hfailure.mono hrefused (fun _ hx => hx) (fun _ hx => hx)
  refine { h with broker := hbroker, task := ?_, failed := ?_ }
  · intro n task htask
    refine (h.task n task htask).mono (Or.imp (hsame _) (hseen _)) ?_
    intro handle hwaits
    refine ⟨htransport _ hwaits.transport, fun code text hanswer => ?_⟩
    rcases hanswers _ code text hanswer with hold | hnew
    · exact (hwaits.answer code text hold).imp_left (hrefused _)
    · exact hnew _ hwaits.transport rfl task.call.owner rfl
  · intro uuid account haccount item hitem hfailed
    exact (h.failed uuid account haccount item hitem hfailed).imp (hseen _)
      (fun ⟨hnot, hrunning⟩ => ⟨hsame _ hnot, hrunning⟩)

theorem Sound.served_of_answers
    (hanswers : broker.answers = s.broker.answers) : Sound { s with broker } := by
  refine h.served hbroker htransport hhanded (fun _ hx => hx) ?_
  intro id code text hanswer
  rw [hanswers] at hanswer
  exact Or.inl hanswer

end

variable {clientId : ℤ}

theorem Sound.requestIdentity (h : Sound s) {throws : Bool} :
    Sound { s with broker := s.broker.requestIdentity clientId (s.now + 8) throws } := by
  refine h.served_of_answers h.broker.requestIdentity ?_ ?_ ?_ <;>
    unfold TdRequestBroker.requestIdentity
  · intro request hrequest
    split
    · exact hrequest
    · split
      · exact hrequest
      · exact mem_append_left _ hrequest
  · intro request hrequest
    split at hrequest
    · exact Or.inl hrequest
    · split at hrequest
      · exact Or.inl hrequest
      · rcases mem_append.mp hrequest with hold | hlast
        · exact Or.inl hold
        · rw [mem_singleton.mp hlast]
          exact Or.inr rfl
  · split
    · rfl
    · split <;> rfl

theorem Sound.respond (h : Sound s) {requestId : ℕ} {object : TdObject} :
    Sound (s.respond requestId clientId object) := by
  have htransport : (s.broker.complete requestId clientId object).transport = s.broker.transport :=
    TdRequestBroker.transport_complete
  refine h.served h.broker.complete ?_ ?_ ?_ ?_
  · intro request hrequest
    rw [htransport]
    exact hrequest
  · intro request hrequest
    rw [htransport] at hrequest
    exact Or.inl hrequest
  · intro x hx
    split
    · exact mem_append_left _ hx
    · exact hx
  · intro id code text hanswer
    rcases TdRequestBroker.answers_complete s.broker requestId clientId object id with
      hsame | ⟨rfl, hset, item, hitem, hclient⟩
    · rw [hsame] at hanswer
      exact Or.inl hanswer
    · refine Or.inr fun request hrequest hid owner howner => Or.inl ?_
      -- the request that waits is the one that the transport knows by this id
      obtain rfl := h.broker.unique _ hrequest _ (h.broker.pending _ item hitem) hid
      rw [hset] at hanswer
      obtain rfl : object = .error code text := by simpa using hanswer
      refine mem_append_right _ (mem_filterMap.mpr ⟨_, hrequest, ?_⟩)
      rw [if_pos ⟨rfl, hclient⟩]
      exact howner

theorem Sound.stop (h : Sound s) (hcareful : Careful s .stop) :
    Sound { s with broker := s.broker.stop } := by
  refine h.served h.broker.stop (fun _ hx => hx) (fun _ hx => Or.inl hx) (fun _ hx => hx) ?_
  intro id code text hanswer
  by_cases hpending : s.broker.pending.any fun item => item.1 = id
  · refine Or.inr fun request hrequest hid owner howner => Or.inr ?_
    obtain ⟨item, hitem, hsame⟩ := any_eq_true.mp hpending
    obtain rfl : item.1 = id := of_decide_eq_true hsame
    obtain rfl := h.broker.unique _ hrequest _ (h.broker.pending item.1 item.2 hitem) hid
    exact hcareful item.1 item.2 hitem owner howner
  · refine Or.inl ?_
    simpa [TdRequestBroker.stop, hpending] using hanswer

theorem Sound.begin (h : Sound s) {function : TdFunction} {throws : Bool}
    (hfunction : function.owner = none ∨
      (s.broker.beginRequest clientId function throws).1.transport = s.broker.transport) :
    Sound { s with broker := (s.broker.beginRequest clientId function throws).1 } := by
  have hbegin := TdRequestBroker.beginRequest_cases s.broker clientId function throws
  refine h.served_of_answers h.broker.begin ?_ ?_ ?_
  · intro request hrequest
    rcases hbegin with heq | heq | heq <;> rw [heq]
    · exact hrequest
    · exact hrequest
    · exact mem_append_left _ hrequest
  · intro request hrequest
    rcases hfunction with hnone | hsame
    · rcases hbegin with heq | heq | heq <;> rw [heq] at hrequest
      · exact Or.inl hrequest
      · exact Or.inl hrequest
      · rcases mem_append.mp hrequest with hold | hlast
        · exact Or.inl hold
        · rw [mem_singleton.mp hlast]
          exact Or.inr hnone
    · rw [hsame] at hrequest
      exact Or.inl hrequest
  · rcases hbegin with heq | heq | heq <;> rw [heq]

theorem handed_append {request : Request} (hbroker : broker.transport = s.broker.transport ++ [request])
    (hother : request.function.owner ≠ some owner) (h : s.handed owner = false) :
    State.handed { s with broker } owner = false := by
  unfold State.handed at h ⊢
  rw [hbroker, any_append, h]
  simp [hother]

theorem Sound.hand (h : Sound s) (htask : s.tasks n = some task) (hbroker : broker.Sound)
    (htransport : broker.transport =
      s.broker.transport ++ [⟨s.broker.nextRequestId, task.call.client, State.sendRequest task.call⟩])
    (hanswers : broker.answers = s.broker.answers) :
    Sound ({ s with broker }.goOn n task.call
      (.awaiting ⟨s.broker.nextRequestId, task.call.client, true, none⟩)) := by
  have hsame : ∀ owner, owner ≠ task.call.owner → s.handed owner = false →
      State.handed { s with broker } owner = false := by
    intro owner hother
    refine handed_append htransport ?_
    intro howner
    exact hother (Option.some.inj howner).symm
  have htask' : State.tasks { s with broker } n = some task := htask
  refine { h with
    broker := hbroker
    below := fun _ _ => h.below_goOn htask
    task := ?_
    single := fun _ _ _ _ => h.single_goOn htask
    failed := ?_ }
  · intro m other hother
    rcases State.tasks_goOn hother with ⟨-, rfl⟩ | ⟨hne, hold⟩
    · -- the thread itself waits now, for a promise that is not set
      refine ⟨?_, ?_⟩
      · show _ ∈ broker.transport
        rw [htransport]
        exact mem_append_right _ (mem_singleton_self _)
      · intro code text hanswer
        have hnone : broker.answers s.broker.nextRequestId = none := by
          rw [hanswers]
          exact h.broker.fresh _ (Nat.le_refl _)
        exact absurd (hnone.symm.trans hanswer) (by simp)
    · -- every other one dispatches another operation
      have hother : other.call.owner ≠ task.call.owner := by
        intro howner
        exact hne (h.single m other n task hold htask howner)
      refine (h.task m other hold).mono (Or.imp_left (hsame _ hother)) ?_
      intro handle hwaits
      refine ⟨?_, ?_⟩
      · show _ ∈ broker.transport
        rw [htransport]
        exact mem_append_left _ hwaits.transport
      · show ∀ code text, broker.answers handle.requestId = _ → _
        rw [hanswers]
        exact hwaits.answer
  · intro uuid account haccount item hitem hfailed
    rcases h.failed uuid account haccount item hitem hfailed with hseen | ⟨hnot, hrunning⟩
    · exact Or.inl hseen
    · refine Or.inr ⟨hsame _ ?_ hnot, fun hr => hrunning (running_goOn htask' hr)⟩
      intro howner
      exact hrunning ⟨n, task, htask, howner.symm⟩

end Requests

section Answers

variable {n : ℕ} {task : Task} {object : Option TdObject}

theorem unsettled_of_operation {uuid : Uuid} {account : Account} {id : Uuid}
    {operation : SendOperation} (haccount : s.accounts uuid = some account)
    (hoperation : account.operation id = some operation) (hopen : operation.settled = false) :
    Unsettled s ⟨uuid, id⟩ :=
  ⟨account, haccount, (id, operation), Account.operation_eq hoperation, rfl, hopen⟩

section

variable (h : Sound s) (htask : s.tasks n = some task)
include h htask

theorem Sound.fail {failure : SendFailure}
    (hmay : Unsettled s task.call.owner → Justified s task.call.owner) :
    Sound (s.fail n task.call failure) := by
  have hfinish : ∀ account, (s.drop n).accounts task.call.uuid = some account →
      Follows (fun id => id = task.call.command.operationId ∧ Unsettled s task.call.owner) []
        account (account.finish task.call.command.operationId failure s.now) := by
    intro account haccount
    refine follows_finish ?_
    intro operation hoperation hopen
    exact ⟨rfl, unsettled_of_operation haccount hoperation hopen⟩
  refine (h.drop n).change hfinish ?_ (fun _ hx => absurd hx not_mem_nil) (fun _ hx => hx)
    (fun _ hx => hx)
  rintro id ⟨rfl, hunsettled⟩
  rcases hmay hunsettled with hnot | hseen
  · exact Or.inr ⟨hnot, h.not_running htask⟩
  · exact Or.inl hseen

theorem Sound.justified (hstage : task.stage.sending = none) : Justified s task.call.owner := by
  have hsound := h.task n task htask
  unfold Task.Sound at hsound
  rw [hstage] at hsound
  exact hsound

theorem Sound.originalAnswered (hjustified : Justified s task.call.owner) :
    Sound (s.originalAnswered n task.call object) := by
  unfold State.originalAnswered
  split
  · exact h.goOn htask hjustified
  · exact h.fail htask fun _ => hjustified

theorem Sound.propertiesAnswered (hjustified : Justified s task.call.owner) :
    Sound (s.propertiesAnswered n task.call object) := by
  unfold State.propertiesAnswered
  split
  · exact h.goOn htask hjustified
  · exact h.fail htask fun _ => hjustified
  · exact h.fail htask fun _ => hjustified

end

theorem Sound.accepted (h : Sound s) {call : Call} {message : TdMessage} :
    Sound { s.change call.uuid fun account => account.accepted call.command.operationId
        call.command.replyTo call.sendingId message s.now with
      temporaries := if s.binds call message then
          s.temporaries ++ [(call.owner, message.chatId, message.id)]
        else s.temporaries } := by
  have haccepted : ∀ account, s.accounts call.uuid = some account →
      Follows (fun _ => False)
        (if s.binds call message then
          [((message.chatId, message.id), call.command.operationId)] else [])
        account (account.accepted call.command.operationId call.command.replyTo call.sendingId
          message s.now) := by
    intro account haccount
    refine follows_accepted ?_
    intro operation hoperation htemporary hstate
    have hbinds : s.binds call message = true := by
      simp [State.binds, haccount, hoperation, htemporary, hstate]
    rw [if_pos hbinds]
    exact mem_singleton_self _
  refine h.change haccepted (fun _ hfalse => hfalse.elim) ?_ ?_ (fun _ hx => hx)
  · intro x hx
    split at hx
    · rename_i hbinds
      rw [if_pos hbinds, mem_singleton.mp hx]
      exact mem_append_right _ (mem_singleton_self _)
    · exact absurd hx not_mem_nil
  · intro x hx
    split
    · exact mem_append_left _ hx
    · exact hx

theorem Sound.sendAnswered (h : Sound s) (htask : s.tasks n = some task) {reached : Bool}
    (hrefused : ∀ code text, object = some (.error code text) → reached = true → code ≠ 504 →
      task.call.owner ∈ s.refused ∨ ¬ Unsettled s task.call.owner)
    (hnot : reached = false → Justified s task.call.owner) :
    Sound (s.sendAnswered n task.call reached object) := by
  have hmay : ∀ code text, object = some (.error code text) → ¬ (reached = true ∧ code = 504) →
      Unsettled s task.call.owner → Justified s task.call.owner := by
    intro code text hobject hcode hunsettled
    cases hreached : reached with
    | false => exact hnot hreached
    | true =>
      rcases hrefused code text hobject hreached (fun h504 => hcode ⟨hreached, h504⟩) with
        hmem | hsettled
      · exact Or.inr (Or.inl hmem)
      · exact absurd hunsettled hsettled
  unfold State.sendAnswered
  split
  · exact h.accepted.drop n
  · rename_i code text
    split
    · exact h.drop n
    · rename_i hcode
      split
      · exact h.fail htask (hmay code text rfl hcode)
      · exact h.fail htask (hmay code text rfl hcode)
  · split
    · exact h.drop n
    · rename_i hreached
      exact h.fail htask fun _ => hnot (by simpa using hreached)

theorem Sound.answered (h : Sound s) (htask : s.tasks n = some task)
    (hready : ∀ handle, task.stage.sending = some handle →
      s.broker.answers handle.requestId = some object ∨ object = some TdRequestBroker.timedOut) :
    Sound (s.answered n task object) := by
  unfold State.answered
  split
  · rename_i hstage
    exact h.originalAnswered htask (h.justified htask (by rw [hstage]; rfl))
  · rename_i hstage
    exact h.propertiesAnswered htask (h.justified htask (by rw [hstage]; rfl))
  · rename_i handle hstage
    have hsound := h.task n task htask
    unfold Task.Sound at hsound
    cases hpending : handle.pending with
    | false =>
      have hnone : task.stage.sending = none := by simp [hstage, Stage.sending, hpending]
      exact h.sendAnswered htask (fun _ _ _ hreached => absurd hreached (by decide))
        (fun _ => h.justified htask hnone)
    | true =>
      have hsome : task.stage.sending = some handle := by simp [hstage, Stage.sending, hpending]
      rw [hsome] at hsound
      refine h.sendAnswered htask ?_ (fun hreached => absurd hreached (by decide))
      rintro code text rfl - hcode
      rcases hready handle hsome with hanswer | htimed
      · exact hsound.answer code text hanswer
      · exact absurd (by simpa [TdRequestBroker.timedOut] using htimed : code = 504 ∧ _).1 hcode
  · exact h

end Answers

section Steps

variable {n : ℕ} {task : Task} {uuid : Uuid}

section

variable (h : Sound s) (htask : s.tasks n = some task)
include h htask

theorem Sound.goOn_of_sending
    (hbefore : task.stage.sending = none) {stage : Stage} (hstage : stage.sending = none) :
    Sound (s.goOn n task.call stage) := by
  have hjustified := h.justified htask hbefore
  refine h.goOn htask ?_
  unfold Task.Sound
  rw [hstage]
  exact hjustified

theorem Sound.asked (hbefore : task.stage.sending = none) {function : TdFunction} {throws : Bool}
    {stage : RequestHandle → Stage} (hfunction : function.owner = none)
    (hstage : ∀ handle, (stage handle).sending = none) :
    Sound (match s.broker.beginRequest task.call.client function throws with
      | (broker, some handle) => { s with broker }.goOn n task.call (stage handle)
      | (broker, none) => { s with broker }.drop n) := by
  have hbegun : Sound { s with
      broker := (s.broker.beginRequest task.call.client function throws).1 } :=
    h.begin (Or.inl hfunction)
  rcases TdRequestBroker.beginRequest_cases s.broker task.call.client function throws with
    heq | heq | heq <;> rw [heq] at hbegun ⊢
  · exact hbegun.goOn_of_sending htask hbefore (hstage _)
  · exact hbegun.drop n
  · exact hbegun.goOn_of_sending htask hbefore (hstage _)

theorem Sound.ask {throws : Bool} :
    Sound (s.ask n task throws) := by
  unfold State.ask
  split
  · rename_i hstage
    exact h.asked htask (by rw [hstage]; rfl) rfl (fun _ => rfl)
  · rename_i hstage
    exact h.asked htask (by rw [hstage]; rfl) rfl (fun _ => rfl)
  · rename_i hstage
    have hbefore : task.stage.sending = none := by rw [hstage]; rfl
    have hbroker : (s.broker.beginRequest task.call.client (State.sendRequest task.call)
      throws).1.Sound := h.broker.begin
    have hskipped : (s.broker.beginRequest task.call.client (State.sendRequest task.call)
        throws).1.transport = s.broker.transport → Sound { s with broker :=
          (s.broker.beginRequest task.call.client (State.sendRequest task.call) throws).1 } :=
      fun hsame => h.begin (Or.inr hsame)
    rcases TdRequestBroker.beginRequest_cases s.broker task.call.client
      (State.sendRequest task.call) throws with heq | heq | heq <;>
        rw [heq] at hbroker hskipped ⊢
    · exact (hskipped rfl).goOn_of_sending htask hbefore rfl
    · exact (hskipped rfl).fail htask fun _ => (hskipped rfl).justified htask hbefore
    · exact h.hand htask hbroker rfl rfl
  · exact h

end

theorem Sound.mark (h : Sound s) {call : Call} (htask : s.tasks n = some ⟨call, .marking⟩) :
    Sound (s.mark n call) := by
  unfold State.mark
  split
  · exact h.drop n
  · rename_i operation hoperation
    split
    · exact h.drop n
    · rename_i hpreparing
      obtain ⟨before, hbefore, hfound⟩ := Option.bind_eq_some_iff.mp hoperation
      have hopen : operation.settled = false := by
        simp [SendOperation.settled, not_not.mp hpreparing]
      have hchanged : Sound (s.change call.uuid fun account =>
          account.modify call.command.operationId fun operation =>
            { operation with state := .dispatching }) := by
        refine h.change_quiet ?_
        intro account haccount
        obtain rfl : before = account := Option.some.inj (hbefore.symm.trans haccount)
        exact follows_move hfound hopen (by simp)
      have hnext := hchanged.goOn_of_sending htask rfl (rfl : Stage.handing.sending = none)
      exact hnext

variable {message : TdMessage}

section

variable (h : Sound s)
include h

theorem Sound.newMessage :
    Sound (s.newMessage uuid message) := by
  have hbind : ∀ account, s.accounts uuid = some account →
      Follows (fun _ => False)
        (((s.accounts uuid).bind fun account => State.bound account message).map
          fun id => ((message.chatId, message.id), id)).toList
        account (account.bindPending message) := by
    intro account haccount
    refine follows_bindPending ?_
    intro id hid
    simp [haccount, hid]
  refine h.change hbind (fun _ hfalse => hfalse.elim) ?_
    (fun _ hx => mem_append_left _ hx) (fun _ hx => hx)
  intro x hx
  obtain ⟨id, hid, rfl⟩ := Option.map_eq_some_iff.mp (Option.mem_toList.mp hx)
  refine mem_append_right _ (Option.mem_toList.mpr ?_)
  simp [hid]

theorem Sound.sendSucceeded {oldId : ℤ} :
    Sound (s.change uuid fun account => account.succeeded oldId message s.now) :=
  h.change_quiet fun _ _ => follows_succeeded

theorem Sound.sendFailed {oldId : ℤ} {error : Option (ℤ × String)} :
    Sound { s.change uuid fun account => account.failed oldId message error s.now with
      sendFailed := s.sendFailed ++ [(uuid, message.chatId, oldId)] } := by
  have hfailed : ∀ account, s.accounts uuid = some account →
      Follows (fun id => ((⟨uuid, id⟩ : Owner), message.chatId, oldId) ∈ s.temporaries) []
        account (account.failed oldId message error s.now) := by
    intro account haccount
    refine follows_failed ?_
    intro id hmem
    exact h.bound uuid account haccount _ hmem
  refine h.change hfailed ?_ (fun _ hx => absurd hx not_mem_nil) (fun _ hx => hx)
    (fun _ hx => mem_append_left _ hx)
  intro id htemporary
  exact Or.inl (Or.inr ⟨_, htemporary, rfl, mem_append_right _ (mem_singleton_self _)⟩)

theorem Sound.create {account : Account} (call : Call) (stage : Stage)
    (operation : SendOperation) (sendingIds : List (ℤ × Uuid))
    (haccount : s.accounts call.uuid = some account)
    (hnone : account.operation call.command.operationId = none)
    (hopen : operation.settled = false) (hstage : stage.sending = none)
    (hrunning : ¬ Running s call.owner) (hjustified : Justified s call.owner) :
    Sound { s with
      accounts := update s.accounts call.uuid (some { account with
        sends := account.sends ++ [(call.command.operationId, operation)], sendingIds })
      tasks := update s.tasks s.next (some ⟨call, stage⟩)
      next := s.next + 1 } := by
  have hid := Account.operation_eq_none hnone
  have htasks : ∀ m other, update s.tasks s.next (some ⟨call, stage⟩) m = some other →
      m = s.next ∧ other = ⟨call, stage⟩ ∨ m ≠ s.next ∧ s.tasks m = some other := by
    intro m other hother
    have hgone : (s.goOn s.next call stage).tasks m = some other := hother
    exact State.tasks_goOn hgone
  have haccounts : ∀ other after, update s.accounts call.uuid (some { account with
      sends := account.sends ++ [(call.command.operationId, operation)], sendingIds }) other =
        some after →
      (other = call.uuid ∧ after = { account with
        sends := account.sends ++ [(call.command.operationId, operation)], sendingIds }) ∨
      (other ≠ call.uuid ∧ s.accounts other = some after) := by
    intro other after hafter
    by_cases heq : other = call.uuid
    · subst heq
      exact Or.inl ⟨rfl, by simpa using hafter.symm⟩
    · exact Or.inr ⟨heq, by simpa [heq] using hafter⟩
  refine { h with below := ?_, task := ?_, single := ?_, keys := ?_, failed := ?_, bound := ?_ }
  · intro m other hother
    rcases htasks m other hother with ⟨rfl, -⟩ | ⟨-, hold⟩
    · exact Nat.lt_succ_self _
    · exact Nat.lt_succ_of_lt (h.below m other hold)
  · intro m other hother
    rcases htasks m other hother with ⟨-, rfl⟩ | ⟨-, hold⟩
    · unfold Task.Sound
      rw [hstage]
      exact hjustified
    · refine (h.task m other hold).mono (fun hj => hj) ?_
      intro handle hwaits
      refine ⟨hwaits.transport, fun code text hanswer => ?_⟩
      refine (hwaits.answer code text hanswer).imp_right fun hsettled hunsettled => hsettled ?_
      -- the new operation is none that a thread waits for
      obtain ⟨after, hafter, item, hitem, hitemId, hitemOpen⟩ := hunsettled
      rcases haccounts _ _ hafter with ⟨huuid, rfl⟩ | ⟨-, hsame⟩
      · rcases mem_append.mp hitem with hbefore | hlast
        · exact ⟨account, by rw [huuid]; exact haccount, item, hbefore, hitemId, hitemOpen⟩
        · refine absurd ⟨m, other, hold, ?_⟩ hrunning
          rw [mem_singleton.mp hlast] at hitemId
          unfold Call.owner at huuid hitemId ⊢
          simp only at huuid hitemId
          rw [huuid, hitemId]
      · exact ⟨after, hsame, item, hitem, hitemId, hitemOpen⟩
  · intro m other m' other' hother hother' howner
    rcases htasks m other hother with ⟨rfl, rfl⟩ | ⟨-, hold⟩
    · rcases htasks m' other' hother' with ⟨rfl, rfl⟩ | ⟨-, hold'⟩
      · rfl
      · exact absurd ⟨m', other', hold', howner.symm⟩ hrunning
    · rcases htasks m' other' hother' with ⟨rfl, rfl⟩ | ⟨-, hold'⟩
      · exact absurd ⟨m, other, hold, howner⟩ hrunning
      · exact h.single m other m' other' hold hold' howner
  · intro other after hafter
    rcases haccounts _ _ hafter with ⟨-, rfl⟩ | ⟨-, hsame⟩
    · intro x hx y hy hxy
      rcases mem_append.mp hx with hold | hlast
      · rcases mem_append.mp hy with hold' | hlast'
        · exact h.keys _ account haccount x hold y hold' hxy
        · rw [mem_singleton.mp hlast'] at hxy
          exact absurd hxy (hid x hold)
      · rcases mem_append.mp hy with hold' | hlast'
        · rw [mem_singleton.mp hlast] at hxy
          exact absurd hxy.symm (hid y hold')
        · rw [mem_singleton.mp hlast, mem_singleton.mp hlast']
    · exact h.keys other after hsame
  · intro other after hafter item hitem hfailed
    have hkeep : ∀ owner, owner ≠ call.owner → ¬ Running s owner →
        ¬ Running { s with
          accounts := update s.accounts call.uuid (some { account with
            sends := account.sends ++ [(call.command.operationId, operation)], sendingIds })
          tasks := update s.tasks s.next (some ⟨call, stage⟩)
          next := s.next + 1 } owner := by
      rintro owner hother hnot ⟨m, task, htask, howner⟩
      rcases htasks m task htask with ⟨-, rfl⟩ | ⟨-, hold⟩
      · exact hother howner.symm
      · exact hnot ⟨m, task, hold, howner⟩
    rcases haccounts _ _ hafter with ⟨rfl, rfl⟩ | ⟨hne, hsame⟩
    · rcases mem_append.mp hitem with hold | hlast
      · refine (h.failed _ account haccount item hold hfailed).imp_right ?_
        rintro ⟨hnot, hidle⟩
        refine ⟨hnot, hkeep _ ?_ hidle⟩
        intro howner
        exact hid item hold (congrArg Owner.operation howner)
      · rw [mem_singleton.mp hlast] at hfailed
        have hstate : operation.state = .failed := hfailed
        have hsettled : operation.settled = true := by simp [SendOperation.settled, hstate]
        rw [hopen] at hsettled
        exact absurd hsettled (by decide)
    · refine (h.failed _ after hsame item hitem hfailed).imp_right ?_
      rintro ⟨hnot, hidle⟩
      refine ⟨hnot, hkeep _ ?_ hidle⟩
      intro howner
      exact hne (congrArg Owner.uuid howner)
  · intro other after hafter item hitem
    rcases haccounts _ _ hafter with ⟨rfl, rfl⟩ | ⟨-, hsame⟩
    · exact h.bound _ account haccount item hitem
    · exact h.bound other after hsame item hitem

theorem Sound.send {command : SendCommand} {sendingId : ℤ}
    (hcareful : Careful s (.send uuid command sendingId)) : Sound (s.send uuid command sendingId) := by
  have hput : ∀ account after, s.accounts uuid = some account →
      Follows (fun _ => False) [] account after →
      Sound { s with accounts := update s.accounts uuid (some after) } := by
    intro account after haccount hfollows
    refine h.put_quiet ?_
    rintro _ ⟨rfl⟩
    rw [haccount]
    exact hfollows
  rcases State.send_cases s uuid command sendingId with
    heq | ⟨account, haccount, ⟨after, hafter, heq⟩ | ⟨client, hmade, hnone, heq⟩⟩ <;> rw [heq]
  · exact h
  · rcases hafter with rfl | rfl
    · exact hput _ _ haccount (Follows.refl _)
    · exact hput _ _ haccount (follows_prune s.now)
  · have hpruned := hput _ _ haccount (follows_prune s.now)
    obtain ⟨hrunning, hjustified⟩ := hcareful account client haccount hmade
    have hcreate := hpruned.create ⟨uuid, command, client, sendingId⟩
      (if command.replyTo ≠ 0 then .original else .marking)
      (account.created command sendingId s.now)
      ((account.prune s.now).sendingIds ++ [(sendingId, command.operationId)])
      (update_self _ _ _) hnone rfl (by split <;> rfl) hrunning hjustified
    simpa using hcreate

theorem Sound.take (htask : s.tasks n = some task) {object : Option TdObject}
    (hready : (State.handle task.stage).bind s.broker.ready = some object) :
    Sound (s.answered n task object) := by
  refine h.answered htask ?_
  intro handle hsending
  refine Or.inl ?_
  cases hstage : task.stage with
  | awaiting waited =>
    rw [hstage] at hsending hready
    obtain ⟨hpending, rfl⟩ : waited.pending = true ∧ waited = handle := by
      simpa [Stage.sending] using hsending
    simpa [State.handle, TdRequestBroker.ready, hpending] using hready
  | _ =>
    rw [hstage] at hsending
    exact absurd hsending (by simp [Stage.sending])

theorem Sound.timeOut (htask : s.tasks n = some task) {handle : RequestHandle} :
    Sound (State.answered { s with broker := s.broker.timeOut handle (s.now + 22) false } n task
      (some TdRequestBroker.timedOut)) := by
  have hbroker : Sound { s with broker := s.broker.timeOut handle (s.now + 22) false } :=
    h.served_of_answers h.broker.timeOut (fun _ hx => hx) (fun _ hx => Or.inl hx) rfl
  exact hbroker.answered htask fun _ _ => Or.inr rfl

end

theorem sound_step (event : Event) (hcareful : Careful s event) (h : Sound s) :
    Sound (step s event) := by
  cases event with
  | elapse seconds =>
    exact { h with
      task := fun n task htask => (h.task n task htask).mono (fun hj => hj)
        (fun _ hwaits => ⟨hwaits.1, hwaits.2⟩) }
  | status uuid status =>
    refine h.put_quiet ?_
    rintro _ ⟨rfl⟩
    exact follows_fewer (fun _ hx => hx) (fun _ hx => hx)
  | forget uuid =>
    refine h.put_quiet ?_
    intro account haccount
    exact absurd haccount (by simp)
  | resetSession uuid => exact h.change_quiet fun _ _ => follows_resetSession
  | send uuid command sendingId => exact h.send hcareful
  | ask thread throws =>
    simp only [step]
    split
    · rename_i task htask
      exact h.ask htask
    · exact h
  | take thread =>
    simp only [step]
    split
    · rename_i task htask
      split
      · rename_i object hready
        exact h.take htask hready
      · exact h
    · exact h
  | timeOut thread =>
    simp only [step]
    split
    · rename_i task htask
      split
      · split
        · exact h.timeOut htask
        · exact h
      · exact h
    · exact h
  | mark thread =>
    simp only [step]
    split
    · rename_i call htask
      exact h.mark htask
    · exact h
  | respond requestId clientId object => exact h.respond
  | newMessage uuid message => exact h.newMessage
  | sendSucceeded uuid oldId message => exact h.sendSucceeded
  | sendFailed uuid oldId message error => exact h.sendFailed
  | requestIdentity clientId throws => exact h.requestIdentity
  | expire =>
    exact h.served_of_answers h.broker.expire (fun _ hx => hx) (fun _ hx => Or.inl hx) rfl
  | start => exact h.served_of_answers h.broker.start (fun _ hx => hx) (fun _ hx => Or.inl hx) rfl
  | stop => exact h.stop hcareful

end Steps

theorem sound_start : Sound {} where
  broker := ⟨by simp, by simp, by simp, by simp⟩
  below := by simp
  task := by simp
  single := by simp
  keys := by simp
  failed := by simp
  bound := by simp

theorem sound_of_run {events : List Event}
    (hrun : Run (Within Careful fun s event s' => step s event = s') {} events s) : Sound s := by
  refine hrun.invariant Sound ?_ sound_start
  rintro s event _ h ⟨hcareful, rfl⟩
  exact sound_step event hcareful h

/-- **What a failed send means.** In every run where the broker stops and ids are used again only
when nothing is under way, an operation that is reported failed was not handed to the transport,
or TDLib answered it with an error, or reported that its temporary message could not be sent. -/
theorem failed_of_run {events : List Event}
    (hrun : Run (Within Careful fun s event s' => step s event = s') {} events s) (owner : Owner)
    (retryable : Bool) (hreport : s.report owner = some (.failed, retryable)) :
    Justified s owner := by
  obtain ⟨operation, hfound, hstate⟩ := Option.map_eq_some_iff.mp hreport
  obtain ⟨account, haccount, hoperation⟩ := Option.bind_eq_some_iff.mp hfound
  have hfailed : operation.state = .failed := congrArg Prod.fst hstate
  rcases (sound_of_run hrun).failed owner.uuid account haccount _
    (Account.operation_eq hoperation) hfailed with hseen | ⟨hnot, -⟩
  · exact Or.inr hseen
  · exact Or.inl hnot

def stoppedMeanwhile : List Event := handedOver ++ [.stop, .take 0]

/-- The message that TDLib refuses is reported failed, and rightly so. -/
theorem failed_of_run_refused :
    (refusedByTdlib.foldl step {}).report ⟨1, 7⟩ = some (.failed, false) ∧
      Justified (refusedByTdlib.foldl step {}) ⟨1, 7⟩ := by
  have hreport : (refusedByTdlib.foldl step {}).report ⟨1, 7⟩ = some (.failed, false) := by decide
  have hsend : Careful (step {} (.status 1 sendingStatus))
      (.send 1 ⟨7, 0, 1, 9, 0, "hi"⟩ 3) := by
    intro account client _ _
    refine ⟨?_, Or.inl rfl⟩
    rintro ⟨n, task, htask, -⟩
    exact absurd htask (by simp [step])
  have hrun : Run (Within Careful fun s event s' => step s event = s') {} refusedByTdlib
      (refusedByTdlib.foldl step {}) :=
    ((((((Run.nil _).snoc ⟨trivial, rfl⟩).snoc ⟨hsend, rfl⟩).snoc ⟨trivial, rfl⟩).snoc
      ⟨trivial, rfl⟩).snoc ⟨trivial, rfl⟩).snoc ⟨trivial, rfl⟩
  exact ⟨hreport, failed_of_run hrun ⟨1, 7⟩ false hreport⟩

/-- The broker stops while TDLib has the message: it is reported failed, and may be sent again. -/
theorem failed_when_stopped :
    Run (fun s event s' => step s event = s') {} stoppedMeanwhile
        (stoppedMeanwhile.foldl step {}) ∧
      (stoppedMeanwhile.foldl step {}).report ⟨1, 7⟩ = some (.failed, true) ∧
      ¬ Justified (stoppedMeanwhile.foldl step {}) ⟨1, 7⟩ := by
  refine ⟨(run_function_iff step _ _ _).mpr rfl, by decide, ?_⟩
  unfold Justified FailureSeen
  decide

end Runtime
