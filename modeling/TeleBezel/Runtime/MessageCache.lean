import Mathlib.Data.Prod.Lex
import Mathlib.Data.String.Basic
import TeleBezel.Lib.OrderedMap

/-!
# The message cache

`AccountStore` of `backend-tdlib/include/telebezel/runtime/account_store.hpp`: the messages and the
sender names of every account, with the indexes and the totals that are kept along with them. A
subtraction of `size_t` that wraps around has no result, and neither has a loop that is still running
when its fuel is spent. A projection is how long its dump is and its date; the accounts are told apart
by their addresses. What `reset_session` clears besides is left out.
-/

namespace Runtime.MessageCache

structure MessageKey where
  chat : ℤ
  message : ℤ

instance : LinearOrder MessageKey :=
  LinearOrder.lift' (fun key => toLex (key.chat, key.message)) fun a b h => by
    cases a
    cases b
    cases h
    rfl

/-- An entry of `message_age`. -/
structure Age where
  date : ℤ
  key : MessageKey

instance : LinearOrder Age :=
  LinearOrder.lift' (fun age => toLex (age.date, age.key)) fun a b h => by
    cases a
    cases b
    cases h
    rfl

structure AgeKey where
  date : ℤ
  account : ℕ
  key : MessageKey

instance : LinearOrder AgeKey :=
  LinearOrder.lift' (fun age => toLex (age.date, toLex (age.account, age.key))) fun a b h => by
    cases a
    cases b
    cases h
    rfl

/-- A projection of a message: the length of its dump, and its date; none if `dump` or `value`
throws. -/
structure Projection where
  size : ℕ
  date : Option ℤ
deriving DecidableEq

structure CachedMessageMeta where
  bytes : ℕ
  date : ℤ

def Projection.cached (projection : Projection) : CachedMessageMeta where
  bytes := projection.size
  date := projection.date.getD 0

/-- The limits that `load_config` accepts. -/
structure Limits where
  perChat : ℕ
  perAccount : ℕ
  perProcess : ℕ
  projectionBytes : ℕ
  perChat_pos : 1 ≤ perChat := by decide
  perChat_le : perChat ≤ perAccount := by decide
  perAccount_le : perAccount ≤ perProcess := by decide

/-- `AccountState`, as far as the cache uses it. -/
structure AccountState where
  messages : OrderedMap MessageKey Projection := {}
  messageMeta : OrderedMap MessageKey CachedMessageMeta := {}
  chatMessageCounts : OrderedMap ℤ ℕ := {}
  messageAge : OrderedMap Age Unit := {}
  messageBytes : ℕ := 0
  senderNames : OrderedMap String String := {}
  senderOrder : List String := []
  senderBytes : ℕ := 0
  interestCounts : OrderedMap ℤ ℕ := {}

structure AccountStore where
  limits : Limits
  accounts : OrderedMap ℕ AccountState := {}
  ageIndex : OrderedMap AgeKey Unit := {}
  totalMessages : ℕ := 0
  totalBytes : ℕ := 0

def sub (a b : ℕ) : Option ℕ := if b ≤ a then some (a - b) else none

/-- `--chat->second`, and the entry is erased at 0. -/
def dropCount (counts : OrderedMap ℤ ℕ) (chat : ℤ) : Option (OrderedMap ℤ ℕ) :=
  match counts.find chat with
  | none => some counts
  | some count => do
    let count ← sub count 1
    return if count = 0 then counts.erase chat else counts.put chat count

def evictionScan : ℕ := 4096

def activeChat (account : AccountState) (chat : ℤ) : Bool :=
  (account.interestCounts.find chat).any (0 < ·)

/-- The message that `evict_one` takes of an account. -/
def AccountState.victim (account : AccountState) : Option MessageKey :=
  let entries := account.messageAge.entries.map Prod.fst
  let inactive := (entries.take evictionScan).find? fun age => !activeChat account age.key.chat
  (inactive.or entries.head?).map Age.key

variable (state : AccountState)

/-- What `erase_message` leaves of an account. -/
def AccountState.without (key : MessageKey) (cached : CachedMessageMeta)
    (chatMessageCounts : OrderedMap ℤ ℕ) (messageBytes : ℕ) : AccountState :=
  { state with
    messages := state.messages.erase key
    messageMeta := state.messageMeta.erase key
    messageAge := state.messageAge.erase ⟨cached.date, key⟩
    chatMessageCounts
    messageBytes }

/-- What `put_message` inserts into an account. -/
def AccountState.insert (key : MessageKey) (projection : Projection) :
    AccountState :=
  { state with
    messages := state.messages.put key projection
    messageMeta := state.messageMeta.put key projection.cached
    messageAge := state.messageAge.put ⟨projection.cached.date, key⟩ ()
    chatMessageCounts := state.chatMessageCounts.put key.chat
      ((state.chatMessageCounts.find key.chat).getD 0 + 1)
    messageBytes := state.messageBytes + projection.cached.bytes }

/-- What `clear_messages` leaves of an account. -/
def AccountState.cleared : AccountState :=
  { state with
    messages := {}
    messageMeta := {}
    chatMessageCounts := {}
    messageAge := {}
    messageBytes := 0 }

namespace AccountStore

variable (s : AccountStore) (account : ℕ)

def update (state : AccountState) : AccountStore :=
  { s with accounts := s.accounts.put account state }

/-- The account and the message that `evict_one` takes of all. -/
def victim : Option (ℕ × MessageKey) :=
  let entries := s.ageIndex.entries.map Prod.fst
  let active := fun age : AgeKey =>
    (s.accounts.find age.account).any fun account => activeChat account age.key.chat
  let inactive := (entries.take evictionScan).find? fun age => !active age
  (inactive.or entries.head?).map fun age => (age.account, age.key)

def eraseMessage (key : MessageKey) : Option AccountStore :=
  match s.accounts.find account with
  | none => some s
  | some state =>
    match state.messages.find key with
    | none => some s
    | some projection => do
      let cached := (state.messageMeta.find key).getD projection.cached
      let chatMessageCounts ← dropCount state.chatMessageCounts key.chat
      let messageBytes ← sub state.messageBytes cached.bytes
      let totalBytes ← sub s.totalBytes cached.bytes
      let totalMessages ← sub s.totalMessages 1
      return {
        s.update account (state.without key cached chatMessageCounts messageBytes) with
        ageIndex := s.ageIndex.erase ⟨cached.date, account, key⟩
        totalBytes
        totalMessages }

def clearMessages : Option AccountStore :=
  match s.accounts.find account with
  | none => some s
  | some state => do
    let totalMessages ← sub s.totalMessages state.messages.size
    let totalBytes ← sub s.totalBytes state.messageBytes
    return {
      s.update account state.cleared with
      ageIndex := state.messageAge.entries.foldl
        (fun index entry => index.erase ⟨entry.1.date, account, entry.1.key⟩) s.ageIndex
      totalBytes
      totalMessages }

/-- The insertions of `put_message`. -/
def insertMessage (state : AccountState) (key : MessageKey)
    (projection : Projection) : AccountStore :=
  { s.update account (state.insert key projection) with
    ageIndex := s.ageIndex.put ⟨projection.cached.date, account, key⟩ ()
    totalBytes := s.totalBytes + projection.cached.bytes
    totalMessages := s.totalMessages + 1 }

/-- The first loop of `put_message`: the messages of a chat. -/
def trimChat : ℕ → AccountStore → ℕ → ℤ → Option AccountStore
  | 0, _, _, _ => none
  | fuel + 1, s, account, chat =>
    match s.accounts.find account with
    | none => some s
    | some state =>
      match state.chatMessageCounts.find chat with
      | none =>
        -- `operator[]` makes an entry
        some (s.update account
          { state with chatMessageCounts := state.chatMessageCounts.put chat 0 })
      | some count =>
        if count ≤ s.limits.perChat then some s
        else
          -- `lower_bound` of the chat: no message has a lesser id than the least
          match state.messages.entries.find? fun entry => chat ≤ entry.1.chat with
          | none => some s
          | some oldest =>
            if oldest.1.chat ≠ chat then some s
            else do trimChat fuel (← s.eraseMessage account oldest.1) account chat

/-- The second loop of `put_message`: the messages of an account. -/
def trimAccount : ℕ → AccountStore → ℕ → Option AccountStore
  | 0, _, _ => none
  | fuel + 1, s, account =>
    match s.accounts.find account with
    | none => some s
    | some state =>
      if state.messages.size ≤ s.limits.perAccount then some s
      else
        match state.victim with
        | none => some s
        | some key => do trimAccount fuel (← s.eraseMessage account key) account

def enforceProcessBudget : ℕ → AccountStore → Option AccountStore
  | 0, _ => none
  | fuel + 1, s =>
    if s.totalMessages ≤ s.limits.perProcess ∧ s.totalBytes ≤ s.limits.projectionBytes then some s
    else
      match s.victim with
      | none => some s
      | some (account, key) => do enforceProcessBudget fuel (← s.eraseMessage account key)

def putMessage (fuel : ℕ) (account : ℕ) (key : MessageKey) (projection : Projection) :
    Option AccountStore := do
  let s ← s.eraseMessage account key
  match s.accounts.find account, projection.date with
  | some state, some _ =>
    let s ← trimChat fuel (s.insertMessage account state key projection) account key.chat
    let s ← trimAccount fuel s account
    enforceProcessBudget fuel s
  | _, _ => return s

def nameBytes (entry : String × String) : ℕ := entry.1.utf8ByteSize + entry.2.utf8ByteSize

/-- The insertion of `put_sender_name`. -/
def insertName (state : AccountState) (key name : String) : Option AccountStore :=
  match state.senderNames.find key with
  | some old => do
    let senderBytes ← sub state.senderBytes (nameBytes (key, old))
    let totalBytes ← sub s.totalBytes (nameBytes (key, old))
    return {
      s.update account { state with
        senderNames := state.senderNames.put key name
        senderBytes := senderBytes + nameBytes (key, name) } with
      totalBytes := totalBytes + nameBytes (key, name) }
  | none =>
    return {
      s.update account { state with
        senderNames := state.senderNames.put key name
        senderOrder := state.senderOrder ++ [key]
        senderBytes := state.senderBytes + nameBytes (key, name) } with
      totalBytes := s.totalBytes + nameBytes (key, name) }

/-- The loop of `put_sender_name`. -/
def trimNames : ℕ → AccountStore → ℕ → Option AccountStore
  | 0, _, _ => none
  | fuel + 1, s, account =>
    match s.accounts.find account with
    | none => some s
    | some state =>
      if state.senderNames.size ≤ s.limits.perAccount then some s
      else
        match state.senderOrder with
        | [] => some s
        | key :: senderOrder =>
          match state.senderNames.find key with
          | none => trimNames fuel (s.update account { state with senderOrder }) account
          | some name => do
            let senderBytes ← sub state.senderBytes (nameBytes (key, name))
            let totalBytes ← sub s.totalBytes (nameBytes (key, name))
            let state := { state with
              senderOrder, senderBytes, senderNames := state.senderNames.erase key }
            trimNames fuel { s.update account state with totalBytes } account

def putSenderName (fuel : ℕ) (account : ℕ) (key name : String) : Option AccountStore :=
  match s.accounts.find account with
  | none => some s
  | some state => do
    let s ← s.insertName account state key name
    let s ← trimNames fuel s account
    enforceProcessBudget fuel s

def clearSenderNames : Option AccountStore :=
  match s.accounts.find account with
  | none => some s
  | some state => do
    let totalBytes ← sub s.totalBytes state.senderBytes
    return {
      s.update account { state with senderNames := {}, senderOrder := [], senderBytes := 0 } with
      totalBytes }

def interest (interestCounts : OrderedMap ℤ ℕ) : AccountStore :=
  match s.accounts.find account with
  | none => s
  | some state => s.update account { state with interestCounts }

def resetSession : Option AccountStore := do
  let s ← s.clearMessages account
  let s ← s.clearSenderNames account
  return s.interest account {}

def enter : AccountStore :=
  if (s.accounts.find account).isSome then s else s.update account {}

end AccountStore

/-- `per_chat` of `consistent`. -/
def perChat (messages : OrderedMap MessageKey Projection) : OrderedMap ℤ ℕ :=
  messages.entries.foldl
    (fun counts entry => counts.put entry.1.chat ((counts.find entry.1.chat).getD 0 + 1)) {}

/-- What `consistent` checks of an account. -/
structure AccountState.Consistent (index : OrderedMap AgeKey Unit) (account : ℕ)
    (state : AccountState) : Prop where
  metaSize : state.messageMeta.size = state.messages.size
  ageSize : state.messageAge.size = state.messages.size
  message : ∀ entry ∈ state.messages.entries, ∃ cached, state.messageMeta.find entry.1 = some cached ∧
    cached.bytes = entry.2.size ∧ (state.messageAge.find ⟨cached.date, entry.1⟩).isSome ∧
      (index.find ⟨cached.date, account, entry.1⟩).isSome
  bytes : (state.messages.sum fun entry =>
    (state.messageMeta.find entry.1).elim 0 CachedMessageMeta.bytes) = state.messageBytes
  perChat : perChat state.messages = state.chatMessageCounts
  names : state.senderNames.sum AccountStore.nameBytes = state.senderBytes

/-- `consistent`. -/
structure AccountStore.Consistent (s : AccountStore) : Prop where
  account : ∀ entry ∈ s.accounts.entries, entry.2.Consistent s.ageIndex entry.1
  messages : (s.accounts.total fun state => state.messages.size) = s.totalMessages
  bytes : (s.accounts.total fun state =>
    (state.messages.sum fun entry =>
      (state.messageMeta.find entry.1).elim 0 CachedMessageMeta.bytes) +
      state.senderNames.sum AccountStore.nameBytes) = s.totalBytes
  aged : (s.accounts.total fun state => state.messageAge.size) = s.ageIndex.size

inductive Operation
  | putMessage (account : ℕ) (key : MessageKey) (projection : Projection)
  | eraseMessage (account : ℕ) (key : MessageKey)
  | clearMessages (account : ℕ)
  | putSenderName (account : ℕ) (key name : String)
  | clearSenderNames (account : ℕ)
  | resetSession (account : ℕ)
  | interest (account : ℕ) (interestCounts : OrderedMap ℤ ℕ)
  | enter (account : ℕ)

def step (fuel : ℕ) (s : AccountStore) : Operation → Option AccountStore
  | .putMessage account key projection => s.putMessage fuel account key projection
  | .eraseMessage account key => s.eraseMessage account key
  | .clearMessages account => s.clearMessages account
  | .putSenderName account key name => s.putSenderName fuel account key name
  | .clearSenderNames account => s.clearSenderNames account
  | .resetSession account => s.resetSession account
  | .interest account interestCounts => some (s.interest account interestCounts)
  | .enter account => some (s.enter account)

def run (fuel : ℕ) (s : AccountStore) (operations : List Operation) : Option AccountStore :=
  operations.foldlM (step fuel) s

end Runtime.MessageCache
