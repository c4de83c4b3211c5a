import TeleBezel.Lib.Transition
import TeleBezel.Runtime.MessageSend

/-!
# The indexes of the operations

An operation without an outcome is found by its sending id, and one that has a temporary message by
that message; nothing else is found. Two things break this. A sending id is drawn that a finished
operation still has, and is freed when that operation is dropped. And a dispatch that outlives its
operation takes the one that was made under its id since for its own.
-/

open List

namespace Runtime

open Transition TdRequestBroker

namespace Account

structure Indexed (account : Account) : Prop where
  keys : account.Keys
  sendingKeys : ∀ x ∈ account.sendingIds, ∀ y ∈ account.sendingIds, x.1 = y.1 → x = y
  /-- A sending id stands for an operation that has it and no outcome. -/
  pointed : ∀ x ∈ account.sendingIds, ∃ operation, account.operation x.2 = some operation ∧
    operation.sendingId = x.1 ∧ operation.settled = false
  /-- An operation without an outcome has its sending id. -/
  waiting : ∀ id operation, account.operation id = some operation → operation.settled = false →
    (operation.sendingId, id) ∈ account.sendingIds
  /-- A message stands for the operation whose temporary message it is. -/
  messages : ∀ x ∈ account.sendMessages, x.1.2 ≠ 0 ∧ ∃ operation,
    account.operation x.2 = some operation ∧ operation.chatId = x.1.1 ∧
      operation.temporaryId = x.1.2

variable {a : Account} {id : Uuid} {operation : SendOperation}

theorem indexed_empty {status : Status} : Indexed ⟨status, [], [], []⟩ where
  keys := by simp [Keys]
  sendingKeys := by simp
  pointed := by simp
  waiting := by simp [Account.operation]
  messages := by simp

theorem Indexed.withStatus (h : a.Indexed) (status : Status) : Indexed { a with status } :=
  ⟨h.keys, h.sendingKeys, h.pointed, h.waiting, h.messages⟩

variable {change : SendOperation → SendOperation}

theorem Indexed.modify (h : a.Indexed)
    (hsending : ∀ operation, (change operation).sendingId = operation.sendingId)
    (hchat : ∀ operation, (change operation).chatId = operation.chatId)
    (htemporary : ∀ operation, (change operation).temporaryId = operation.temporaryId)
    (hsettled : ∀ operation, a.operation id = some operation →
      (change operation).settled = operation.settled) : (a.modify id change).Indexed := by
  refine ⟨h.keys.modify id change, h.sendingKeys, ?_, ?_, ?_⟩
  · intro x hx
    obtain ⟨operation, hoperation, hid, hopen⟩ := h.pointed x hx
    by_cases heq : x.2 = id
    · subst heq
      refine ⟨change operation, by simp [hoperation], (hsending operation).trans hid, ?_⟩
      rw [hsettled operation hoperation, hopen]
    · exact ⟨operation, by rw [operation_modify_of_ne heq]; exact hoperation, hid, hopen⟩
  · intro other operation hoperation hopen
    by_cases heq : other = id
    · subst heq
      rw [operation_modify] at hoperation
      obtain ⟨before, hbefore, rfl⟩ := Option.map_eq_some_iff.mp hoperation
      rw [hsending]
      refine h.waiting other before hbefore ?_
      rw [← hsettled before hbefore, hopen]
    · rw [operation_modify_of_ne heq] at hoperation
      exact h.waiting other operation hoperation hopen
  · intro x hx
    obtain ⟨hne, operation, hoperation, hmessage, htemp⟩ := h.messages x hx
    by_cases heq : x.2 = id
    · subst heq
      refine ⟨hne, change operation, by simp [hoperation], ?_, ?_⟩
      · exact (hchat operation).trans hmessage
      · exact (htemporary operation).trans htemp
    · exact ⟨hne, operation, by rw [operation_modify_of_ne heq]; exact hoperation, hmessage, htemp⟩

theorem Indexed.settle (h : a.Indexed)
    (hoperation : a.operation id = some operation) (hopen : operation.settled = false)
    (hchat : (change operation).chatId = operation.chatId)
    (htemporary : (change operation).temporaryId = operation.temporaryId)
    (hsettled : (change operation).settled = true) :
    ((a.modify id change).freeSendingId operation.sendingId).Indexed := by
  have hown := h.waiting id operation hoperation hopen
  refine ⟨h.keys.modify id change, ?_, ?_, ?_, ?_⟩
  · intro x hx y hy
    exact h.sendingKeys x (mem_filter.mp hx).1 y (mem_filter.mp hy).1
  · intro x hx
    obtain ⟨hmem, hkept⟩ := mem_filter.mp hx
    obtain ⟨other, hother, hid, hotherOpen⟩ := h.pointed x hmem
    have heq : x.2 ≠ id := by
      intro heq
      rw [heq, hoperation] at hother
      obtain rfl := Option.some.inj hother
      exact of_decide_eq_true hkept hid.symm
    exact ⟨other, (operation_modify_of_ne heq).trans hother, hid, hotherOpen⟩
  · intro other after hafter hafterOpen
    have hafter' : (a.modify id change).operation other = some after := hafter
    by_cases heq : other = id
    · subst heq
      rw [operation_modify, hoperation] at hafter'
      obtain rfl := Option.some.inj hafter'
      rw [hsettled] at hafterOpen
      exact absurd hafterOpen (by decide)
    · rw [operation_modify_of_ne heq] at hafter'
      have hmem := h.waiting other after hafter' hafterOpen
      refine mem_filter.mpr ⟨hmem, decide_eq_true ?_⟩
      intro hsame
      exact heq (congrArg Prod.snd (h.sendingKeys _ hmem _ hown hsame))
  · intro x hx
    obtain ⟨hne, other, hother, hmessage, htemp⟩ := h.messages x hx
    by_cases heq : x.2 = id
    · rw [heq, hoperation] at hother
      obtain rfl := Option.some.inj hother
      refine ⟨hne, change operation, ?_, hchat.trans hmessage, htemporary.trans htemp⟩
      show (a.modify id change).operation x.2 = _
      rw [heq, operation_modify, hoperation]
      rfl
    · exact ⟨hne, other, (operation_modify_of_ne heq).trans hother, hmessage, htemp⟩

theorem Indexed.forget (h : a.Indexed) (key : ℤ × ℤ) :
    Indexed { a with sendMessages := a.sendMessages.filter fun item => item.1 ≠ key } :=
  ⟨h.keys, h.sendingKeys, h.pointed, h.waiting,
    fun x hx => h.messages x (mem_filter.mp hx).1⟩

variable {message : TdMessage}

theorem Indexed.given (h : a.Indexed)
    (hoperation : a.operation id = some operation) (hnone : operation.temporaryId = 0)
    (hmessage : message.id ≠ 0) (hchat : message.chatId = operation.chatId) :
    ((a.modify id fun operation => { operation with temporaryId := message.id }).bind
      (message.chatId, message.id) id).Indexed := by
  refine ⟨?_, h.sendingKeys, ?_, ?_, ?_⟩
  · exact h.keys.modify id fun operation => { operation with temporaryId := message.id }
  · intro x hx
    obtain ⟨other, hother, hid, hopen⟩ := h.pointed x hx
    by_cases heq : x.2 = id
    · refine ⟨{ other with temporaryId := message.id }, ?_, hid, hopen⟩
      rw [operation_bind, heq, operation_modify, ← heq, hother]
      rfl
    · refine ⟨other, ?_, hid, hopen⟩
      rw [operation_bind, operation_modify_of_ne heq]
      exact hother
  · intro other after hafter hopen
    rw [operation_bind] at hafter
    by_cases heq : other = id
    · subst heq
      rw [operation_modify, hoperation] at hafter
      obtain rfl := Option.some.inj hafter
      exact h.waiting other operation hoperation hopen
    · rw [operation_modify_of_ne heq] at hafter
      exact h.waiting other after hafter hopen
  · intro x hx
    rcases mem_append.mp hx with hold | hlast
    · obtain ⟨hne, other, hother, hother', htemp⟩ := h.messages x (mem_filter.mp hold).1
      -- no message stands for an operation that has none
      have heq : x.2 ≠ id := by
        intro heq
        rw [heq, hoperation] at hother
        obtain rfl := Option.some.inj hother
        exact hne (htemp.symm.trans hnone)
      refine ⟨hne, other, ?_, hother', htemp⟩
      rw [operation_bind, operation_modify_of_ne heq]
      exact hother
    · rw [mem_singleton.mp hlast]
      refine ⟨hmessage, { operation with temporaryId := message.id }, ?_, hchat.symm, rfl⟩
      rw [operation_bind, operation_modify, hoperation]
      rfl

theorem Indexed.append (h : a.Indexed) (hnone : a.operation id = none)
    (hopen : operation.settled = false)
    (hfresh : ∀ x ∈ a.sendingIds, x.1 ≠ operation.sendingId) :
    Indexed { a with
      sends := a.sends ++ [(id, operation)]
      sendingIds := a.sendingIds ++ [(operation.sendingId, id)] } := by
  have hid := operation_eq_none hnone
  have hold : ∀ other found, a.operation other = some found →
      Account.operation { a with
        sends := a.sends ++ [(id, operation)]
        sendingIds := a.sendingIds ++ [(operation.sendingId, id)] } other = some found := by
    intro other found hfound
    obtain ⟨item, hitem, rfl⟩ := Option.map_eq_some_iff.mp hfound
    unfold Account.operation
    rw [List.find?_append, hitem]
    rfl
  have hnew : Account.operation { a with
      sends := a.sends ++ [(id, operation)]
      sendingIds := a.sendingIds ++ [(operation.sendingId, id)] } id = some operation := by
    unfold Account.operation at hnone ⊢
    rw [List.find?_append, Option.map_eq_none_iff.mp hnone]
    simp
  refine ⟨?_, ?_, ?_, ?_, ?_⟩
  · intro x hx y hy hxy
    rcases mem_append.mp hx with hx | hx <;> rcases mem_append.mp hy with hy | hy
    · exact h.keys x hx y hy hxy
    · rw [mem_singleton.mp hy] at hxy
      exact absurd hxy (hid x hx)
    · rw [mem_singleton.mp hx] at hxy
      exact absurd hxy.symm (hid y hy)
    · rw [mem_singleton.mp hx, mem_singleton.mp hy]
  · intro x hx y hy hxy
    rcases mem_append.mp hx with hx | hx <;> rcases mem_append.mp hy with hy | hy
    · exact h.sendingKeys x hx y hy hxy
    · rw [mem_singleton.mp hy] at hxy
      exact absurd hxy (hfresh x hx)
    · rw [mem_singleton.mp hx] at hxy
      exact absurd hxy.symm (hfresh y hy)
    · rw [mem_singleton.mp hx, mem_singleton.mp hy]
  · intro x hx
    rcases mem_append.mp hx with hx | hx
    · obtain ⟨other, hother, hsending, hotherOpen⟩ := h.pointed x hx
      exact ⟨other, hold _ _ hother, hsending, hotherOpen⟩
    · rw [mem_singleton.mp hx]
      exact ⟨operation, hnew, rfl, hopen⟩
  · intro other found hfound hfoundOpen
    cases hbefore : a.operation other with
    | some before =>
      obtain rfl : before = found := Option.some.inj ((hold _ _ hbefore).symm.trans hfound)
      exact mem_append_left _ (h.waiting other before hbefore hfoundOpen)
    | none =>
      have hmem := operation_eq hfound
      rcases mem_append.mp hmem with hmem | hmem
      · exact absurd rfl (operation_eq_none hbefore _ hmem)
      · obtain ⟨rfl, rfl⟩ : other = id ∧ found = operation := by simpa using hmem
        exact mem_append_right _ (mem_singleton_self _)
  · intro x hx
    obtain ⟨hne, other, hother, hmessage, htemp⟩ := h.messages x hx
    exact ⟨hne, other, hold _ _ hother, hmessage, htemp⟩

variable {now : ℕ}

theorem Indexed.prune (h : a.Indexed)
    (hdistinct : ∀ item ∈ a.sends, finishedRetention ≤ now - item.2.finished.getD item.2.created →
      item.2.settled → ∀ x ∈ a.sendingIds, x.1 ≠ item.2.sendingId) : (a.prune now).Indexed := by
  have hsubset : ∀ item ∈ (a.prune now).sends, item ∈ a.sends ∧
      ¬ finishedRetention ≤ now - item.2.finished.getD item.2.created := by
    intro item hitem
    simpa [Account.prune] using hitem
  have hkeys : (a.prune now).Keys := by
    intro x hx y hy
    exact h.keys x (hsubset x hx).1 y (hsubset y hy).1
  have hkept : ∀ id operation, a.operation id = some operation →
      ¬ finishedRetention ≤ now - operation.finished.getD operation.created →
      (a.prune now).operation id = some operation := by
    intro id operation hoperation hyoung
    exact operation_prune hoperation (Nat.not_le.mp hyoung)
  have hbefore : ∀ id operation, (a.prune now).operation id = some operation →
      a.operation id = some operation ∧
        ¬ finishedRetention ≤ now - operation.finished.getD operation.created := by
    intro id operation hoperation
    obtain ⟨hmem, hyoung⟩ := hsubset _ (operation_eq hoperation)
    exact ⟨h.keys.operation_eq_some hmem, hyoung⟩
  refine ⟨hkeys, ?_, ?_, ?_, ?_⟩
  · intro x hx y hy
    exact h.sendingKeys x (mem_filter.mp hx).1 y (mem_filter.mp hy).1
  · intro x hx
    obtain ⟨hmem, hnot⟩ := mem_filter.mp hx
    obtain ⟨operation, hoperation, hsending, hopen⟩ := h.pointed x hmem
    refine ⟨operation, hkept _ _ hoperation ?_, hsending, hopen⟩
    intro hold
    have hgone : operation ∈ (a.sends.filter fun item => finishedRetention ≤
        now - item.2.finished.getD item.2.created).map Prod.snd :=
      mem_map.mpr ⟨_, mem_filter.mpr ⟨operation_eq hoperation, by simpa using hold⟩, rfl⟩
    exact of_decide_eq_true (all_eq_true.mp hnot operation hgone) hsending
  · intro id operation hoperation hopen
    obtain ⟨hfound, hyoung⟩ := hbefore id operation hoperation
    have hmem := h.waiting id operation hfound hopen
    refine mem_filter.mpr ⟨hmem, all_eq_true.mpr ?_⟩
    intro gone hgone
    obtain ⟨item, hitem, rfl⟩ := mem_map.mp hgone
    obtain ⟨hitemMem, hexpired⟩ := mem_filter.mp hitem
    refine decide_eq_true ?_
    intro hsame
    -- one that has no outcome has its sending id for itself, and a finished one has none
    cases hsettled : item.2.settled with
    | true => exact hdistinct item hitemMem (by simpa using hexpired) hsettled _ hmem hsame.symm
    | false =>
      have hitemOperation := h.keys.operation_eq_some hitemMem
      have hitemOwn := h.waiting item.1 item.2 hitemOperation hsettled
      have hid := congrArg Prod.snd (h.sendingKeys _ hitemOwn _ hmem hsame)
      rw [show item.1 = id from hid, hfound] at hitemOperation
      rw [← Option.some.inj hitemOperation] at hexpired
      exact hyoung (by simpa using hexpired)
  · intro x hx
    obtain ⟨hmem, hnot⟩ := mem_filter.mp hx
    obtain ⟨hne, operation, hoperation, hmessage, htemp⟩ := h.messages x hmem
    refine ⟨hne, operation, hkept _ _ hoperation ?_, hmessage, htemp⟩
    intro hold
    have hgone : operation ∈ (a.sends.filter fun item => finishedRetention ≤
        now - item.2.finished.getD item.2.created).map Prod.snd :=
      mem_map.mpr ⟨_, mem_filter.mpr ⟨operation_eq hoperation, by simpa using hold⟩, rfl⟩
    have := all_eq_true.mp hnot operation hgone
    simp [hmessage, htemp, hne] at this

variable {failure : SendFailure}

theorem Indexed.finish (h : a.Indexed) :
    (a.finish id failure now).Indexed := by
  unfold Account.finish
  split
  · exact h
  · rename_i operation hoperation
    split
    · exact h
    · rename_i hopen
      exact h.settle hoperation (by simpa using hopen) rfl rfl rfl

theorem Indexed.accepted (h : a.Indexed) {replyTo sendingId : ℤ} (hmessage : message.id ≠ 0)
    (hown : ∀ operation, a.operation id = some operation →
      operation.sendingId = sendingId ∧ message.chatId = operation.chatId) :
    (a.accepted id replyTo sendingId message now).Indexed := by
  unfold Account.accepted
  split
  · exact h
  · rename_i operation hoperation
    obtain ⟨hsending, hchat⟩ := hown operation hoperation
    have hgiven : (if operation.temporaryId = 0 ∧ message.sendingState.isSome then
        (a.modify id fun operation => { operation with temporaryId := message.id }).bind
          (message.chatId, message.id) id
        else a).Indexed := by
      split
      · rename_i hnone
        exact h.given hoperation hnone.1 hmessage hchat
      · exact h
    obtain ⟨after, hafter, hstate, hsame⟩ := operation_given
      (operation.temporaryId = 0 ∧ message.sendingState.isSome) message hoperation
    dsimp only
    split
    · exact hgiven
    · rename_i hdispatching
      have hopen : after.settled = false := by
        simp [SendOperation.settled, hstate, not_not.mp hdispatching]
      split
      · refine hgiven.modify (fun _ => rfl) (fun _ => rfl) (fun _ => rfl) ?_
        intro other hother
        obtain rfl : after = other := Option.some.inj (hafter.symm.trans hother)
        rw [hopen]
        rfl
      · rw [← hsending, ← hsame]
        exact hgiven.settle hafter hopen rfl rfl rfl

theorem Indexed.bindPending (h : a.Indexed) (hmessage : message.id ≠ 0) :
    (a.bindPending message).Indexed := by
  unfold Account.bindPending
  split
  · split
    · exact h
    · rename_i _ id _
      split
      · exact h
      · rename_i operation hoperation
        split
        · exact h
        · rename_i hchat
          have hgiven : (if operation.temporaryId = 0 then
              (a.modify id fun operation => { operation with temporaryId := message.id }).bind
                (message.chatId, message.id) id
              else a).Indexed := by
            split
            · rename_i hnone
              exact h.given hoperation hnone hmessage (not_not.mp (not_or.mp hchat).2).symm
            · exact h
          obtain ⟨after, hafter, hstate, -⟩ :=
            operation_given (operation.temporaryId = 0) message hoperation
          dsimp only
          split
          · rename_i hearly
            refine hgiven.modify (fun _ => rfl) (fun _ => rfl) (fun _ => rfl) ?_
            intro other hother
            obtain rfl : after = other := Option.some.inj (hafter.symm.trans hother)
            rcases hearly with hearly | hearly <;> simp [SendOperation.settled, hstate, hearly]
          · exact hgiven
  · exact h

variable {oldId : ℤ}

theorem Indexed.succeeded (h : a.Indexed) :
    (a.succeeded oldId message now).Indexed := by
  unfold Account.succeeded
  split
  · exact h
  · rename_i key id _
    have hforgotten := h.forget key
    dsimp only
    split
    · exact hforgotten
    · rename_i operation hoperation
      split
      · exact hforgotten
      · rename_i hopen
        exact hforgotten.settle hoperation (by simpa using hopen) rfl rfl rfl

theorem Indexed.failed (h : a.Indexed)
    {error : Option (ℤ × String)} : (a.failed oldId message error now).Indexed := by
  unfold Account.failed
  split
  · exact h
  · rename_i key id _
    refine Indexed.finish ?_
    exact (h.forget key).modify (fun _ => rfl) (fun _ => rfl) (fun _ => rfl) (fun _ _ => rfl)

theorem Indexed.ne_of_message (h : a.Indexed) {key : ℤ × ℤ} {owner : Uuid}
    (hfound : a.sendMessages.find? (fun item => item.1 = (message.chatId, oldId)) =
      some (key, owner)) (hoperation : a.operation id = some operation)
    (hother : ¬ (operation.chatId = message.chatId ∧ operation.temporaryId = oldId)) :
    id ≠ owner := by
  rintro rfl
  obtain rfl : key = (message.chatId, oldId) := by simpa using List.find?_some hfound
  obtain ⟨-, found, hfoundOperation, hchat, htemporary⟩ :=
    h.messages _ (mem_of_find?_eq_some hfound)
  obtain rfl : operation = found := Option.some.inj (hoperation.symm.trans hfoundOperation)
  exact hother ⟨hchat, htemporary⟩

theorem operation_finish_of_ne {other : Uuid} (hne : id ≠ other) :
    (a.finish other failure now).operation id = a.operation id := by
  unfold Account.finish
  split
  · rfl
  · split
    · rfl
    · rw [operation_freeSendingId, operation_modify_of_ne hne]

theorem Indexed.record (h : a.Indexed) {command : SendCommand} {sendingId : ℤ}
    (hdistinct : (a.record command sendingId now).1 ≠ a → ∀ item ∈ a.sends,
      finishedRetention ≤ now - item.2.finished.getD item.2.created →
      item.2.settled → ∀ x ∈ a.sendingIds, x.1 ≠ item.2.sendingId)
    (hfresh : ∀ x ∈ (a.prune now).sendingIds, x.1 ≠ sendingId) :
    (a.record command sendingId now).1.Indexed := by
  by_cases hsame : (a.record command sendingId now).1 = a
  · rw [hsame]
    exact h
  · have hpruned := h.prune (hdistinct hsame)
    rcases record_cases a command sendingId now with ⟨-, heq | heq⟩ | ⟨client, hnone, heq⟩
    · exact absurd heq hsame
    · rw [heq]
      exact hpruned
    · rw [heq]
      exact hpruned.append hnone rfl hfresh

end Account

variable {s : State}

/-- What TDLib and the random numbers do: a message is answered with one of its chat, pending
messages have ids, and a sending id is drawn that stands for nothing. -/
def Ordinary (s : State) : Event → Prop
  | .send uuid _ sendingId => ∀ account, s.accounts uuid = some account →
      ∀ x ∈ (account.prune s.now).sendingIds, x.1 ≠ sendingId
  | .respond requestId _ (.message message) => message.id ≠ 0 ∧
      ∀ item, (requestId, item) ∈ s.broker.pending →
        ∀ owner chatId replyTo sendingId text,
          item.function = .sendMessage owner chatId replyTo sendingId text →
          message.chatId = chatId
  | .newMessage _ message => message.id ≠ 0
  | _ => True

/-- A finished operation is dropped when its sending id stands for nothing, and a dispatch takes
the message that it waits for when the operation under its id is still its own. -/
def Distinct (s : State) : Event → Prop
  | .send uuid command sendingId => ∀ account, s.accounts uuid = some account →
      (account.record command sendingId s.now).1 ≠ account → ∀ item ∈ account.sends,
        finishedRetention ≤ s.now - item.2.finished.getD item.2.created → item.2.settled →
        ∀ x ∈ account.sendingIds, x.1 ≠ item.2.sendingId
  | .take n => ∀ call handle message, s.tasks n = some ⟨call, .awaiting handle⟩ →
      s.broker.ready handle = some (some (.message message)) →
      ∀ account operation, s.accounts call.uuid = some account →
        account.operation call.command.operationId = some operation →
        operation.sendingId = call.sendingId ∧ operation.chatId = call.command.chatId
  | _ => True

/-- A call waits for the answer to its message, and a message that answers it is of its chat. -/
structure Expects (broker : TdRequestBroker) (call : Call) (handle : RequestHandle) : Prop where
  transport : handle.pending → (⟨handle.requestId, handle.clientId, State.sendRequest call⟩ :
    Request) ∈ broker.transport
  message : ∀ message, broker.ready handle = some (some (.message message)) →
    message.id ≠ 0 ∧ message.chatId = call.command.chatId

/-- The indexes of the accounts agree with their operations, and the threads wait for messages of
their chats. -/
structure Consistent (s : State) : Prop where
  broker : s.broker.Sound
  waits : ∀ n call handle, s.tasks n = some ⟨call, .awaiting handle⟩ → Expects s.broker call handle
  indexed : ∀ uuid account, s.accounts uuid = some account → account.Indexed

section Consistent

variable {n : ℕ} {call : Call} {stage : Stage} {uuid : Uuid}

variable {temporaries : List (Owner × ℤ × ℤ)} {sendFailed : List (Uuid × ℤ × ℤ)}

section

variable (h : Consistent s)
include h

theorem Consistent.put {after : Option Account}
    (hafter : ∀ account, after = some account → account.Indexed) :
    Consistent
      { s with accounts := Function.update s.accounts uuid after, temporaries, sendFailed } := by
  refine ⟨h.broker, h.waits, ?_⟩
  intro other account haccount
  by_cases heq : other = uuid
  · subst heq
    exact hafter account (by simpa using haccount)
  · exact h.indexed other account (by simpa [heq] using haccount)

theorem Consistent.change {f : Account → Account}
    (hf : ∀ account, s.accounts uuid = some account → account.Indexed → (f account).Indexed) :
    Consistent { s.change uuid f with temporaries, sendFailed } := by
  refine h.put ?_
  intro account haccount
  obtain ⟨before, hbefore, rfl⟩ := Option.map_eq_some_iff.mp haccount
  exact hf before hbefore (h.indexed uuid before hbefore)

theorem Consistent.drop : Consistent (s.drop n) := by
  refine ⟨h.broker, ?_, h.indexed⟩
  intro m call handle htask
  exact h.waits m call handle (State.tasks_drop htask).2

theorem Consistent.goOn
    (hstage : ∀ handle, stage = .awaiting handle → Expects s.broker call handle) :
    Consistent (s.goOn n call stage) := by
  refine ⟨h.broker, ?_, h.indexed⟩
  intro m call' handle htask
  rcases State.tasks_goOn htask with ⟨-, heq⟩ | ⟨-, hold⟩
  · injection heq with hcall hawaiting
    subst hcall
    exact hstage handle hawaiting.symm
  · exact h.waits m call' handle hold

theorem Consistent.goOn_of_ne (hstage : ∀ handle, stage ≠ .awaiting handle) :
    Consistent (s.goOn n call stage) :=
  h.goOn fun handle heq => absurd heq (hstage handle)

theorem Consistent.spawn {next : ℕ} (hstage : ∀ handle, stage ≠ .awaiting handle) :
    Consistent { s with tasks := Function.update s.tasks n (some ⟨call, stage⟩), next } := by
  have hgone : Consistent (s.goOn n call stage) := h.goOn_of_ne hstage
  exact ⟨hgone.broker, hgone.waits, hgone.indexed⟩

theorem Consistent.fail {failure : SendFailure} :
    Consistent (s.fail n call failure) := by
  refine Consistent.drop ?_
  exact h.change fun _ _ hindexed => hindexed.finish

end

variable {broker : TdRequestBroker}

theorem Consistent.served (h : Consistent s) {refused : List Owner} (hbroker : broker.Sound)
    (htransport : ∀ request ∈ s.broker.transport, request ∈ broker.transport)
    (hanswers : ∀ id message, broker.answers id = some (some (.message message)) →
      s.broker.answers id = some (some (.message message)) ∨
        ∀ request ∈ s.broker.transport, request.id = id →
          ∀ call, request.function = State.sendRequest call →
            message.id ≠ 0 ∧ message.chatId = call.command.chatId) :
    Consistent { s with broker, refused } := by
  refine ⟨hbroker, ?_, h.indexed⟩
  intro n call handle htask
  have hwaits := h.waits n call handle htask
  refine ⟨fun hpending => htransport _ (hwaits.transport hpending), ?_⟩
  intro message hready
  cases hpending : handle.pending with
  | false =>
    refine hwaits.message message ?_
    simpa [ready, hpending] using hready
  | true =>
    have hanswer : broker.answers handle.requestId = some (some (.message message)) := by
      simpa [ready, hpending] using hready
    rcases hanswers _ _ hanswer with hold | hnew
    · refine hwaits.message message ?_
      simpa [ready, hpending] using hold
    · exact hnew _ (hwaits.transport hpending) rfl call rfl

theorem Consistent.served_of_answers (h : Consistent s) (hbroker : broker.Sound)
    (htransport : ∀ request ∈ s.broker.transport, request ∈ broker.transport)
    (hanswers : broker.answers = s.broker.answers) : Consistent { s with broker } := by
  refine h.served hbroker htransport ?_
  intro id message hanswer
  rw [hanswers] at hanswer
  exact Or.inl hanswer

variable {throws : Bool} {function : TdFunction}

theorem Consistent.begin (h : Consistent s) {clientId : ℤ}
    :
    Consistent { s with broker := (s.broker.beginRequest clientId function throws).1 } := by
  refine h.served_of_answers h.broker.begin ?_ ?_
  · intro request hrequest
    rcases beginRequest_cases s.broker clientId function throws with
      heq | heq | heq <;> rw [heq]
    · exact hrequest
    · exact hrequest
    · exact mem_append_left _ hrequest
  · rcases beginRequest_cases s.broker clientId function throws with
      heq | heq | heq <;> rw [heq]

theorem Consistent.asked (h : Consistent s)
    {stage : RequestHandle → Stage} (hstage : ∀ handle other, stage handle ≠ .awaiting other) :
    Consistent (match s.broker.beginRequest call.client function throws with
      | (broker, some handle) => { s with broker }.goOn n call (stage handle)
      | (broker, none) => { s with broker }.drop n) := by
  have hbegun : Consistent { s with
      broker := (s.broker.beginRequest call.client function throws).1 } := h.begin
  rcases beginRequest_cases s.broker call.client function throws with
    heq | heq | heq <;> rw [heq] at hbegun ⊢
  · exact hbegun.goOn_of_ne (hstage _)
  · exact hbegun.drop
  · exact hbegun.goOn_of_ne (hstage _)

theorem Consistent.ask (h : Consistent s) {task : Task} :
    Consistent (s.ask n task throws) := by
  unfold State.ask
  split
  · exact h.asked fun _ _ => Stage.noConfusion
  · exact h.asked fun _ _ => Stage.noConfusion
  · have hbegun : Consistent { s with broker := (s.broker.beginRequest task.call.client
        (State.sendRequest task.call) throws).1 } := h.begin
    rcases beginRequest_cases s.broker task.call.client
      (State.sendRequest task.call) throws with heq | heq | heq <;> rw [heq] at hbegun ⊢
    · -- the answer of a request that was not taken is an error
      refine hbegun.goOn ?_
      rintro _ ⟨rfl⟩
      refine ⟨fun hpending => absurd hpending (by simp), ?_⟩
      intro message hready
      exact absurd hready (by simp [ready, refusal])
    · exact hbegun.fail
    · refine hbegun.goOn ?_
      rintro _ ⟨rfl⟩
      refine ⟨fun _ => mem_append_right _ (mem_singleton_self _), ?_⟩
      intro message hready
      have hnone := h.broker.fresh s.broker.nextRequestId (Nat.le_refl _)
      exact absurd hready (by simp [ready, hnone])
  · exact h

variable {object : Option TdObject}

section

variable (h : Consistent s)
include h

theorem Consistent.sendAnswered {reached : Bool}
    (hown : ∀ message, object = some (.message message) →
      message.id ≠ 0 ∧ message.chatId = call.command.chatId ∧
        ∀ account operation, s.accounts call.uuid = some account →
          account.operation call.command.operationId = some operation →
          operation.sendingId = call.sendingId ∧ operation.chatId = call.command.chatId) :
    Consistent (s.sendAnswered n call reached object) := by
  unfold State.sendAnswered
  split
  · rename_i message
    obtain ⟨hid, hchat, hoperation⟩ := hown message rfl
    refine Consistent.drop ?_
    refine h.change ?_
    intro account haccount hindexed
    refine hindexed.accepted hid ?_
    intro operation hfound
    obtain ⟨hsending, hoperationChat⟩ := hoperation account operation haccount hfound
    exact ⟨hsending, hchat.trans hoperationChat.symm⟩
  · split
    · exact h.drop
    · split
      · exact h.fail
      · exact h.fail
  · split
    · exact h.drop
    · exact h.fail

theorem Consistent.answered {task : Task}
    (hown : ∀ call handle message, task = ⟨call, .awaiting handle⟩ →
      object = some (.message message) → message.id ≠ 0 ∧ message.chatId = call.command.chatId ∧
        ∀ account operation, s.accounts call.uuid = some account →
          account.operation call.command.operationId = some operation →
          operation.sendingId = call.sendingId ∧ operation.chatId = call.command.chatId) :
    Consistent (s.answered n task object) := by
  obtain ⟨call, stage⟩ := task
  unfold State.answered
  split
  · unfold State.originalAnswered
    split
    · exact h.goOn_of_ne fun _ => Stage.noConfusion
    · exact h.fail
  · unfold State.propertiesAnswered
    split
    · exact h.goOn_of_ne fun _ => Stage.noConfusion
    · exact h.fail
    · exact h.fail
  · rename_i handle hstage
    obtain rfl : stage = .awaiting handle := hstage
    exact h.sendAnswered fun message => hown call handle message rfl
  · exact h

theorem Consistent.mark : Consistent (s.mark n call) := by
  unfold State.mark
  split
  · exact h.drop
  · rename_i operation hoperation
    split
    · exact h.drop
    · rename_i hpreparing
      obtain ⟨account, haccount, hfound⟩ := Option.bind_eq_some_iff.mp hoperation
      refine Consistent.goOn_of_ne ?_ fun _ => Stage.noConfusion
      refine h.change ?_
      intro account' haccount' hindexed
      obtain rfl : account = account' := Option.some.inj (haccount.symm.trans haccount')
      refine hindexed.modify (fun _ => rfl) (fun _ => rfl) (fun _ => rfl) ?_
      intro operation' hoperation'
      obtain rfl : operation = operation' := Option.some.inj (hfound.symm.trans hoperation')
      simp [SendOperation.settled, not_not.mp hpreparing]

theorem Consistent.send {command : SendCommand} {sendingId : ℤ}
    (hordinary : Ordinary s (.send uuid command sendingId))
    (hdistinct : Distinct s (.send uuid command sendingId)) :
    Consistent (s.send uuid command sendingId) := by
  unfold State.send
  split
  · exact h
  · rename_i account haccount
    have hindexed := (h.indexed uuid account haccount).record (hdistinct account haccount)
      (hordinary account haccount)
    have hrecorded : Consistent { s with
        accounts :=
          Function.update s.accounts uuid (some (account.record command sendingId s.now).1) } := by
      refine h.put ?_
      rintro _ ⟨rfl⟩
      exact hindexed
    dsimp only
    split
    · refine hrecorded.spawn ?_
      intro handle
      split <;> exact Stage.noConfusion
    · exact hrecorded

theorem Consistent.respond {requestId : ℕ} {clientId : ℤ} {object : TdObject}
    (hordinary : Ordinary s (.respond requestId clientId object)) :
    Consistent (s.respond requestId clientId object) := by
  refine h.served h.broker.complete ?_ ?_
  · intro request hrequest
    rw [transport_complete]
    exact hrequest
  · intro id message hanswer
    rcases answers_complete s.broker requestId clientId object id with
      hsame | ⟨rfl, hset, item, hitem, hclient⟩
    · rw [hsame] at hanswer
      exact Or.inl hanswer
    · refine Or.inr fun request hrequest hid call hfunction => ?_
      -- the request that waits is the one that the transport knows by this id
      obtain rfl := h.broker.unique _ hrequest _ (h.broker.pending _ item hitem) hid
      rw [hset] at hanswer
      obtain rfl : object = .message message := by simpa using hanswer
      exact ⟨hordinary.1, hordinary.2 item hitem _ _ _ _ _ hfunction⟩

theorem Consistent.stop : Consistent { s with broker := s.broker.stop } := by
  refine h.served h.broker.stop (fun _ hx => hx) ?_
  intro id message hanswer
  refine Or.inl ?_
  unfold TdRequestBroker.stop at hanswer
  dsimp only at hanswer
  split at hanswer
  · exact absurd hanswer (by simp)
  · exact hanswer

end

theorem consistent_step (event : Event) (hordinary : Ordinary s event)
    (hdistinct : Distinct s event) (h : Consistent s) : Consistent (step s event) := by
  cases event with
  | elapse seconds => exact ⟨h.broker, h.waits, h.indexed⟩
  | status uuid status =>
    refine h.put ?_
    rintro _ ⟨rfl⟩
    cases haccount : s.accounts uuid with
    | none => exact Account.indexed_empty
    | some account => exact (h.indexed uuid account haccount).withStatus status
  | forget uuid =>
    refine h.put ?_
    intro account haccount
    exact absurd haccount (by simp)
  | resetSession uuid => exact h.change fun _ _ _ => Account.indexed_empty
  | send uuid command sendingId => exact h.send hordinary hdistinct
  | ask thread throws =>
    simp only [step]
    split
    · exact h.ask
    · exact h
  | take thread =>
    simp only [step]
    split
    · rename_i task htask
      split
      · rename_i object hready
        refine h.answered ?_
        rintro call handle message rfl rfl
        have hmessage := (h.waits thread call handle htask).message message hready
        exact ⟨hmessage.1, hmessage.2, hdistinct call handle message htask hready⟩
      · exact h
    · exact h
  | timeOut thread =>
    simp only [step]
    split
    · split
      · split
        · refine Consistent.answered ?_ ?_
          · exact h.served_of_answers h.broker.timeOut (fun _ hx => hx) rfl
          · intro _ _ message _ htimed
            exact absurd htimed (by simp [timedOut])
        · exact h
      · exact h
    · exact h
  | mark thread =>
    simp only [step]
    split
    · exact h.mark
    · exact h
  | respond requestId clientId object => exact h.respond hordinary
  | newMessage uuid message => exact h.change fun _ _ hindexed => hindexed.bindPending hordinary
  | sendSucceeded uuid oldId message => exact h.change fun _ _ hindexed => hindexed.succeeded
  | sendFailed uuid oldId message error => exact h.change fun _ _ hindexed => hindexed.failed
  | requestIdentity clientId throws =>
    refine h.served_of_answers h.broker.requestIdentity ?_ ?_ <;>
      unfold requestIdentity
    · intro request hrequest
      split
      · exact hrequest
      · split
        · exact hrequest
        · exact mem_append_left _ hrequest
    · split
      · rfl
      · split <;> rfl
  | expire => exact h.served_of_answers h.broker.expire (fun _ hx => hx) rfl
  | start => exact h.served_of_answers h.broker.start (fun _ hx => hx) rfl
  | stop => exact h.stop

end Consistent

theorem consistent_start : Consistent {} where
  broker := ⟨by simp, by simp, by simp, by simp⟩
  waits := by simp
  indexed := by simp

theorem Account.Indexed.succeeded_other {a : Account} (h : a.Indexed) {oldId : ℤ}
    {message : TdMessage} {now : ℕ} {id : Uuid} {operation : SendOperation}
    (hoperation : a.operation id = some operation)
    (hother : ¬ (operation.chatId = message.chatId ∧ operation.temporaryId = oldId)) :
    (a.succeeded oldId message now).operation id = some operation := by
  unfold Account.succeeded
  split
  · exact hoperation
  · rename_i key owner hfound
    have hne : id ≠ owner := h.ne_of_message hfound hoperation hother
    dsimp only
    split
    · exact hoperation
    · split
      · exact hoperation
      · rw [Account.operation_freeSendingId, Account.operation_modify_of_ne hne]
        exact hoperation

theorem Account.Indexed.failed_other {a : Account} (h : a.Indexed) {oldId : ℤ}
    {message : TdMessage} {error : Option (ℤ × String)} {now : ℕ} {id : Uuid}
    {operation : SendOperation} (hoperation : a.operation id = some operation)
    (hother : ¬ (operation.chatId = message.chatId ∧ operation.temporaryId = oldId)) :
    (a.failed oldId message error now).operation id = some operation := by
  unfold Account.failed
  split
  · exact hoperation
  · rename_i key owner hfound
    have hne : id ≠ owner := h.ne_of_message hfound hoperation hother
    rw [Account.operation_finish_of_ne hne, Account.operation_modify_of_ne hne]
    exact hoperation

/-- **The indexes of the operations.** In every run where nothing is freed or bound by mistake:
every sending id stands for an operation that has it and no outcome, and every operation without an
outcome has its sending id; every message stands for an operation whose temporary message it is;
and an update of TDLib changes no operation but the one whose message it names. -/
theorem indexes_of_run {events : List Event}
    (hrun : Run (Within (fun s event => Ordinary s event ∧ Distinct s event)
      fun s event s' => step s event = s') {} events s)
    {uuid : Uuid} {account : Account} (haccount : s.accounts uuid = some account) :
    (∀ x ∈ account.sendingIds, ∃ operation, account.operation x.2 = some operation ∧
      operation.sendingId = x.1 ∧ operation.settled = false) ∧
    (∀ id operation, account.operation id = some operation → operation.settled = false →
      (operation.sendingId, id) ∈ account.sendingIds) ∧
    (∀ x ∈ account.sendMessages, ∃ operation, account.operation x.2 = some operation ∧
      operation.temporaryId = x.1.2 ∧ operation.chatId = x.1.1) ∧
    ∀ oldId message error now id operation, account.operation id = some operation →
      ¬ (operation.chatId = message.chatId ∧ operation.temporaryId = oldId) →
      (account.succeeded oldId message now).operation id = some operation ∧
        (account.failed oldId message error now).operation id = some operation := by
  have hconsistent : Consistent s := by
    refine hrun.invariant Consistent ?_ consistent_start
    rintro t event _ h ⟨⟨hordinary, hdistinct⟩, rfl⟩
    exact consistent_step event hordinary hdistinct h
  have hindexed := hconsistent.indexed uuid account haccount
  refine ⟨hindexed.pointed, hindexed.waiting, ?_, ?_⟩
  · intro x hx
    obtain ⟨-, operation, hoperation, hchat, htemporary⟩ := hindexed.messages x hx
    exact ⟨operation, hoperation, htemporary, hchat⟩
  · intro oldId message error now id operation hoperation hother
    exact ⟨hindexed.succeeded_other hoperation hother, hindexed.failed_other hoperation hother⟩

/-- The indexes after a message was handed over. -/
theorem indexes_of_run_handed :
    ∃ account, (handedOver.foldl step {}).accounts 1 = some account ∧
      account.sendingIds = [(3, 7)] ∧
      ∀ x ∈ account.sendingIds, ∃ operation, account.operation x.2 = some operation ∧
        operation.sendingId = x.1 ∧ operation.settled = false := by
  have hsend : Ordinary (step {} (.status 1 sendingStatus)) (.send 1 ⟨7, 0, 1, 9, 0, "hi"⟩ 3) ∧
      Distinct (step {} (.status 1 sendingStatus)) (.send 1 ⟨7, 0, 1, 9, 0, "hi"⟩ 3) := by
    constructor
    · rintro account ⟨rfl⟩ x hx
      exact absurd hx List.not_mem_nil
    · rintro account ⟨rfl⟩ _ item hitem
      exact absurd hitem List.not_mem_nil
  have hrun : Run (Within (fun s event => Ordinary s event ∧ Distinct s event)
      fun s event s' => step s event = s') {} handedOver (handedOver.foldl step {}) :=
    ((((Run.nil _).snoc ⟨⟨trivial, trivial⟩, rfl⟩).snoc ⟨hsend, rfl⟩).snoc
      ⟨⟨trivial, trivial⟩, rfl⟩).snoc ⟨⟨trivial, trivial⟩, rfl⟩
  obtain ⟨account, haccount⟩ : ∃ account, (handedOver.foldl step {}).accounts 1 = some account :=
    ⟨_, rfl⟩
  refine ⟨account, haccount, ?_, (indexes_of_run hrun haccount).1⟩
  obtain rfl := Option.some.inj haccount
  rfl

/-- Operation 7 is finished; operation 8 draws its sending id, and then operation 7 is too old. -/
def drawnAgain : List Event :=
  refusedByTdlib ++ [.elapse 86399, .send 1 ⟨8, 0, 1, 9, 0, "hi"⟩ 3, .elapse 1,
    .send 1 ⟨9, 0, 1, 9, 0, "hi"⟩ 4]

/-- Operation 8 has no outcome, and its sending id stands for nothing. -/
theorem sending_id_lost :
    Run (Within Ordinary fun s event s' => step s event = s') {} drawnAgain
        (drawnAgain.foldl step {}) ∧
      ∃ account operation, (drawnAgain.foldl step {}).accounts 1 = some account ∧
        account.operation 8 = some operation ∧ operation.settled = false ∧
        ∀ x ∈ account.sendingIds, x.1 ≠ operation.sendingId := by
  have hseven : Ordinary (step {} (.status 1 sendingStatus)) (.send 1 ⟨7, 0, 1, 9, 0, "hi"⟩ 3) := by
    rintro account ⟨rfl⟩
    decide
  have height : Ordinary ((drawnAgain.take 7).foldl step {}) (.send 1 ⟨8, 0, 1, 9, 0, "hi"⟩ 3) := by
    rintro account ⟨rfl⟩
    decide
  have hnine : Ordinary ((drawnAgain.take 9).foldl step {}) (.send 1 ⟨9, 0, 1, 9, 0, "hi"⟩ 4) := by
    rintro account ⟨rfl⟩
    decide
  constructor
  · exact (((((((((Run.nil _).snoc ⟨trivial, rfl⟩).snoc ⟨hseven, rfl⟩).snoc ⟨trivial, rfl⟩).snoc
      ⟨trivial, rfl⟩).snoc ⟨trivial, rfl⟩).snoc ⟨trivial, rfl⟩).snoc ⟨trivial, rfl⟩).snoc
      ⟨height, rfl⟩).snoc ⟨trivial, rfl⟩ |>.snoc ⟨hnine, rfl⟩
  · exact ⟨_, _, rfl, rfl, by decide, by decide⟩

end Runtime
