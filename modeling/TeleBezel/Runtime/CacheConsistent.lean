import TeleBezel.Runtime.MessageCache

/-!
# The message cache is consistent

Everything that is kept along with the messages and the names is a function of them, so an operation
that changes a message takes away exactly what its entry has added before. No subtraction wraps
around, the loops that evict end after as many rounds as there are messages or names, and the limits
hold after every operation.
-/

open List

namespace Runtime.MessageCache

open OrderedMap AccountStore

variable (messages : OrderedMap MessageKey Projection)

def inChat (chat : ℤ) : ℕ :=
  messages.sum fun entry => if entry.1.chat = chat then 1 else 0

def bytesOf : ℕ := messages.sum fun entry => entry.2.size

structure AccountState.Sound (state : AccountState) : Prop where
  cached : ∀ key, state.messageMeta.find key = (state.messages.find key).map Projection.cached
  metaSize : state.messageMeta.size = state.messages.size
  age : ∀ age, state.messageAge.find age =
    if (state.messages.find age.key).map (fun projection => projection.cached.date) = some age.date
    then some () else none
  ageSize : state.messageAge.size = state.messages.size
  counts : ∀ chat, state.chatMessageCounts.find chat =
    if inChat state.messages chat = 0 then none else some (inChat state.messages chat)
  bytes : state.messageBytes = bytesOf state.messages
  names : state.senderBytes = state.senderNames.sum nameBytes
  order : state.senderOrder.Nodup ∧
    ∀ key, key ∈ state.senderOrder ↔ (state.senderNames.find key).isSome

structure AccountStore.Sound (s : AccountStore) : Prop where
  account : ∀ account state, s.accounts.find account = some state → state.Sound
  index : ∀ age : AgeKey, s.ageIndex.find age =
    (s.accounts.find age.account).bind fun state => state.messageAge.find ⟨age.date, age.key⟩
  indexSize : s.ageIndex.size = s.accounts.total fun state => state.messageAge.size
  messages : s.totalMessages = s.accounts.total fun state => state.messages.size
  bytes : s.totalBytes = s.accounts.total fun state => state.messageBytes + state.senderBytes

/-- The limits hold. -/
structure AccountStore.Bounded (s : AccountStore) : Prop where
  chat : ∀ account state, s.accounts.find account = some state → ∀ chat,
    inChat state.messages chat ≤ s.limits.perChat
  account : ∀ account state, s.accounts.find account = some state →
    state.messages.size ≤ s.limits.perAccount
  names : ∀ account state, s.accounts.find account = some state →
    state.senderNames.size ≤ s.limits.perAccount
  messages : s.totalMessages ≤ s.limits.perProcess
  bytes : s.totalBytes ≤ s.limits.projectionBytes ∨ s.totalMessages = 0

structure AccountStore.Smaller (s' s : AccountStore) : Prop where
  limits : s'.limits = s.limits
  account : ∀ account state', s'.accounts.find account = some state' →
    ∃ state, s.accounts.find account = some state ∧
      state'.messages.size ≤ state.messages.size ∧
      (∀ chat, inChat state'.messages chat ≤ inChat state.messages chat) ∧
      state'.senderNames.size ≤ state.senderNames.size
  kept : ∀ account, (s.accounts.find account).isSome → (s'.accounts.find account).isSome
  messages : s'.totalMessages ≤ s.totalMessages
  bytes : s'.totalBytes ≤ s.totalBytes

variable {s s' s'' : AccountStore} {state state' : AccountState} {account : ℕ} {key : MessageKey}
  {projection : Projection}

theorem AccountStore.Smaller.refl (s : AccountStore) : s.Smaller s :=
  ⟨rfl, fun _ state h => ⟨state, h, Nat.le_refl _, fun _ => Nat.le_refl _, Nat.le_refl _⟩,
    fun _ h => h, Nat.le_refl _, Nat.le_refl _⟩

theorem AccountStore.Smaller.trans (h : s''.Smaller s') (h' : s'.Smaller s) : s''.Smaller s := by
  refine ⟨h.limits.trans h'.limits, ?_, fun account hsome => h.kept account (h'.kept account hsome),
    h.messages.trans h'.messages, h.bytes.trans h'.bytes⟩
  intro account state'' hstate
  obtain ⟨state', hstate', hsize', hchat', hnames'⟩ := h.account account state'' hstate
  obtain ⟨state, hstate, hsize, hchat, hnames⟩ := h'.account account state' hstate'
  exact ⟨state, hstate, hsize'.trans hsize, fun chat => (hchat' chat).trans (hchat chat),
    hnames'.trans hnames⟩

/-! ### What the source checks -/

theorem find_perChat (chat : ℤ) :
    (perChat messages).find chat =
      if inChat messages chat = 0 then none else some (inChat messages chat) := by
  have hfold : ∀ (entries : List (MessageKey × Projection)) (counts : OrderedMap ℤ ℕ),
      (entries.foldl (fun counts entry =>
          counts.put entry.1.chat ((counts.find entry.1.chat).getD 0 + 1)) counts).find chat =
        if (entries.map fun entry => if entry.1.chat = chat then 1 else 0).sum = 0
        then counts.find chat
        else some ((counts.find chat).getD 0 +
          (entries.map fun entry => if entry.1.chat = chat then 1 else 0).sum) := by
    intro entries
    induction entries with
    | nil => intro counts; rfl
    | cons entry entries ih =>
      intro counts
      rw [foldl_cons, ih, find_put, map_cons, sum_cons]
      generalize (entries.map fun entry => if entry.1.chat = chat then 1 else 0).sum = n
      by_cases hchat : entry.1.chat = chat
      · rw [if_pos hchat.symm, if_pos hchat, hchat, Option.getD_some, if_neg (by omega : ¬ 1 + n = 0),
          Nat.add_assoc]
        by_cases hzero : n = 0
        · rw [if_pos hzero, hzero]
        · rw [if_neg hzero]
      · rw [if_neg (Ne.symm hchat), if_neg hchat, Nat.zero_add]
  have hempty : ({} : OrderedMap ℤ ℕ).find chat = none := rfl
  rw [perChat, hfold, hempty]
  show (if inChat messages chat = 0 then none else some (0 + inChat messages chat)) = _
  rw [Nat.zero_add]

theorem AccountState.Sound.bytes_eq (h : state.Sound) :
    (state.messages.sum fun entry =>
      (state.messageMeta.find entry.1).elim 0 CachedMessageMeta.bytes) = state.messageBytes := by
  rw [h.bytes, bytesOf, OrderedMap.sum, OrderedMap.sum]
  refine congrArg List.sum (map_congr_left ?_)
  rintro ⟨key, projection⟩ hmem
  rw [h.cached, OrderedMap.find_eq_some_iff.2 hmem]
  rfl

theorem AccountStore.Sound.consistent (h : s.Sound) : s.Consistent := by
  have hsound : ∀ entry ∈ s.accounts.entries, entry.2.Sound := fun entry hentry =>
    h.account entry.1 entry.2 (find_eq_some_iff.2 hentry)
  have htotal : ∀ f g : AccountState → ℕ, (∀ state : AccountState, state.Sound → f state = g state) →
      s.accounts.total f = s.accounts.total g := by
    intro f g hfg
    refine congrArg List.sum (map_congr_left fun entry hentry => ?_)
    exact hfg entry.2 (hsound entry hentry)
  refine ⟨?_, h.messages.symm, ?_, h.indexSize.symm⟩
  · rintro ⟨account, state⟩ hentry
    have hstate : state.Sound := hsound _ hentry
    refine ⟨hstate.metaSize, hstate.ageSize, ?_, hstate.bytes_eq, ?_, hstate.names.symm⟩
    · rintro ⟨key, projection⟩ hmem
      have hfind := find_eq_some_iff.2 hmem
      have hage : state.messageAge.find ⟨projection.cached.date, key⟩ = some () := by
        rw [hstate.age]
        rw [hfind, Option.map_some, if_pos rfl]
      refine ⟨projection.cached, by rw [hstate.cached, hfind, Option.map_some], rfl, ?_, ?_⟩
      · rw [hage]
        rfl
      · rw [h.index, find_eq_some_iff.2 hentry, Option.bind_some, hage]
        rfl
    · refine ext_find fun chat => ?_
      rw [find_perChat, hstate.counts]
  · rw [h.bytes]
    refine htotal _ _ fun state hstate => ?_
    rw [hstate.bytes_eq, hstate.names]

/-! ### One account changes -/

theorem update_find (account' : ℕ) : (s.update account state).accounts.find account' =
    if account' = account then some state else s.accounts.find account' :=
  find_put account account' state

variable {index : OrderedMap AgeKey Unit}

theorem AccountStore.Sound.replace (h : s.Sound) (hold : s.accounts.find account = some state)
    (hnew : state'.Sound) {totalMessages totalBytes : ℕ} (hindex : ∀ age : AgeKey, index.find age =
      if age.account = account then state'.messageAge.find ⟨age.date, age.key⟩
      else s.ageIndex.find age)
    (hsize : index.size + state.messageAge.size = s.ageIndex.size + state'.messageAge.size)
    (hmessages : totalMessages + state.messages.size = s.totalMessages + state'.messages.size)
    (hbytes : totalBytes + (state.messageBytes + state.senderBytes) =
      s.totalBytes + (state'.messageBytes + state'.senderBytes)) :
    AccountStore.Sound
      { s.update account state' with ageIndex := index, totalMessages, totalBytes } := by
  have htotal : ∀ f : AccountState → ℕ,
      (s.accounts.put account state').total f + f state = s.accounts.total f + f state' := fun f =>
    total_put_add state' f hold
  refine ⟨?_, ?_, ?_, ?_, ?_⟩
  · intro account' state'' hfind
    have hfind' := (update_find (s := s) account').symm.trans hfind
    split at hfind'
    · rw [Option.some.injEq] at hfind'
      rw [← hfind']
      exact hnew
    · exact h.account account' state'' hfind'
  · intro age
    rw [hindex, update_find]
    split
    · rfl
    · exact h.index age
  · show index.size = (s.accounts.put account state').total _
    have hsum := htotal fun state => state.messageAge.size
    have hbefore := h.indexSize
    omega
  · show totalMessages = (s.accounts.put account state').total _
    have hsum := htotal fun state => state.messages.size
    have hbefore := h.messages
    omega
  · show totalBytes = (s.accounts.put account state').total _
    have hsum := htotal fun state => state.messageBytes + state.senderBytes
    have hbefore := h.bytes
    omega

theorem AccountStore.Smaller.replace (hold : s.accounts.find account = some state)
    {totalMessages totalBytes : ℕ} (hsize : state'.messages.size ≤ state.messages.size)
    (hchat : ∀ chat, inChat state'.messages chat ≤ inChat state.messages chat)
    (hnames : state'.senderNames.size ≤ state.senderNames.size)
    (hmessages : totalMessages ≤ s.totalMessages) (hbytes : totalBytes ≤ s.totalBytes) :
    AccountStore.Smaller
      { s.update account state' with ageIndex := index, totalMessages, totalBytes } s := by
  refine ⟨rfl, ?_, ?_, hmessages, hbytes⟩
  · intro account' state'' hfind
    have hfind' := (update_find (s := s) account').symm.trans hfind
    split at hfind'
    · rename_i heq
      subst heq
      rw [Option.some.injEq] at hfind'
      rw [← hfind']
      exact ⟨state, hold, hsize, hchat, hnames⟩
    · exact ⟨state'', hfind', Nat.le_refl _, fun _ => Nat.le_refl _, Nat.le_refl _⟩
  · intro account' hsome
    rw [update_find]
    split
    · rfl
    · exact hsome

/-! ### One message -/

theorem inChat_erase (h : state.messages.find key = some projection) (chat : ℤ) :
    inChat (state.messages.erase key) chat + (if key.chat = chat then 1 else 0) =
      inChat state.messages chat := by
  have herase := sum_erase (m := state.messages) key
    fun entry => if entry.1.chat = chat then 1 else 0
  rw [h, Option.elim_some] at herase
  exact herase

theorem inChat_put (h : state.messages.find key = none) (projection : Projection) (chat : ℤ) :
    inChat (state.messages.put key projection) chat =
      inChat state.messages chat + (if key.chat = chat then 1 else 0) := by
  have herase := sum_erase (m := state.messages) key
    fun entry => if entry.1.chat = chat then 1 else 0
  rw [h, Option.elim_none, Nat.add_zero] at herase
  rw [inChat, sum_put, herase]
  rfl

theorem inChat_le_size (chat : ℤ) :
    inChat messages chat ≤ messages.size := by
  rw [OrderedMap.size_eq_sum, inChat, OrderedMap.sum, OrderedMap.sum]
  induction messages.entries with
  | nil => exact Nat.le_refl _
  | cons entry entries ih =>
    rw [map_cons, sum_cons, map_cons, sum_cons]
    split <;> omega

theorem sub_eq {a b : ℕ} (h : b ≤ a) : sub a b = some (a - b) := if_pos h

theorem AccountState.Sound.aged (h : state.Sound)
    (hmessage : state.messages.find key = some projection) :
    state.messageAge.find ⟨projection.cached.date, key⟩ = some () := by
  rw [h.age, hmessage, Option.map_some, if_pos rfl]

theorem AccountState.Sound.dropCount (h : state.Sound)
    (hmessage : state.messages.find key = some projection) :
    ∃ counts, dropCount state.chatMessageCounts key.chat = some counts ∧ ∀ chat, counts.find chat =
      if inChat (state.messages.erase key) chat = 0 then none
      else some (inChat (state.messages.erase key) chat) := by
  have hchat := inChat_erase hmessage
  have hone := hchat key.chat
  rw [if_pos rfl] at hone
  have hfind : state.chatMessageCounts.find key.chat = some (inChat state.messages key.chat) := by
    rw [h.counts, if_neg (by omega)]
  have hsub : sub (inChat state.messages key.chat) 1 =
      some (inChat (state.messages.erase key) key.chat) := by
    rw [sub_eq (by omega)]
    exact congrArg some (by omega)
  have hdrop : MessageCache.dropCount state.chatMessageCounts key.chat =
      some (if inChat (state.messages.erase key) key.chat = 0
        then state.chatMessageCounts.erase key.chat
        else state.chatMessageCounts.put key.chat (inChat (state.messages.erase key) key.chat)) := by
    rw [MessageCache.dropCount, hfind]
    dsimp only
    rw [hsub]
    rfl
  refine ⟨_, hdrop, fun chat => ?_⟩
  by_cases heq : chat = key.chat
  · subst heq
    split
    · rw [find_erase, if_pos rfl]
    · rw [find_put, if_pos rfl]
  · have hsame : inChat (state.messages.erase key) chat = inChat state.messages chat := by
      have hother := hchat chat
      rwa [if_neg (Ne.symm heq), Nat.add_zero] at hother
    rw [hsame, ← h.counts]
    split
    · rw [find_erase, if_neg heq]
    · rw [find_put, if_neg heq]

theorem bytesOf_erase (hmessage : state.messages.find key = some projection) :
    bytesOf (state.messages.erase key) + projection.size = bytesOf state.messages := by
  have herase := sum_erase (m := state.messages) key fun entry => entry.2.size
  rw [hmessage, Option.elim_some] at herase
  exact herase

theorem AccountState.Sound.without (h : state.Sound)
    (hmessage : state.messages.find key = some projection) {counts : OrderedMap ℤ ℕ}
    (hcounts : ∀ chat, counts.find chat =
      if inChat (state.messages.erase key) chat = 0 then none
      else some (inChat (state.messages.erase key) chat)) :
    (state.without key projection.cached counts (state.messageBytes - projection.size)).Sound := by
  have hmeta : state.messageMeta.find key = some projection.cached := by
    rw [h.cached, hmessage, Option.map_some]
  have hsize := size_erase hmessage
  refine ⟨?_, ?_, ?_, ?_, hcounts, ?_, h.names, h.order⟩
  · intro key'
    show (state.messageMeta.erase key).find key' = ((state.messages.erase key).find key').map _
    rw [find_erase, find_erase]
    split
    · rfl
    · exact h.cached key'
  · show (state.messageMeta.erase key).size = (state.messages.erase key).size
    have hmetasize := size_erase hmeta
    have hsame := h.metaSize
    omega
  · intro age
    show (state.messageAge.erase ⟨projection.cached.date, key⟩).find age =
      if ((state.messages.erase key).find age.key).map _ = some age.date then some () else none
    rw [find_erase, find_erase, h.age]
    by_cases hkey : age.key = key
    · have hnone : ¬ (none : Option ℤ) = some age.date := nofun
      rw [if_pos hkey, Option.map_none, if_neg hnone, hkey, hmessage, Option.map_some]
      split
      · rfl
      · rename_i hne
        refine if_neg fun heq => hne ?_
        obtain ⟨date, key'⟩ := age
        rw [Option.some.injEq] at heq
        cases hkey
        cases heq
        rfl
    · have hne : age ≠ ⟨projection.cached.date, key⟩ := fun heq => hkey (by rw [heq])
      rw [if_neg hkey, if_neg hne]
  · show (state.messageAge.erase _).size = (state.messages.erase key).size
    have hagesize := size_erase (h.aged hmessage)
    have hsame := h.ageSize
    omega
  · show state.messageBytes - projection.size = bytesOf (state.messages.erase key)
    have hbytes := bytesOf_erase hmessage
    rw [h.bytes]
    omega

section

variable (h : s.Sound) (hstate : s.accounts.find account = some state)
include h hstate

theorem find_index (hmessage : state.messages.find key = some projection) :
    s.ageIndex.find ⟨projection.cached.date, account, key⟩ = some () := by
  rw [h.index]
  rw [hstate, Option.bind_some, (h.account account state hstate).aged hmessage]

theorem size_le_total :
    state.messages.size ≤ s.totalMessages := by
  rw [h.messages]
  exact le_total (fun state => state.messages.size) hstate

theorem bytes_le_total :
    state.messageBytes + state.senderBytes ≤ s.totalBytes := by
  rw [h.bytes]
  exact le_total (fun state => state.messageBytes + state.senderBytes) hstate

theorem find_index_erase (date : ℤ) (age : AgeKey) :
    (s.ageIndex.erase ⟨date, account, key⟩).find age =
      if age.account = account then (state.messageAge.erase ⟨date, key⟩).find ⟨age.date, age.key⟩
      else s.ageIndex.find age := by
  rw [find_erase, find_erase]
  obtain ⟨date', account', key'⟩ := age
  by_cases heq : account' = account
  · subst heq
    rw [if_pos rfl, h.index]
    rw [hstate, Option.bind_some]
    refine if_congr ?_ rfl rfl
    rw [AgeKey.mk.injEq, Age.mk.injEq]
    simp
  · rw [if_neg heq, if_neg (by simp [heq])]

theorem eraseMessage_spec (hmessage : state.messages.find key = some projection) :
    ∃ s' state', s.eraseMessage account key = some s' ∧ s'.Sound ∧ s'.Smaller s ∧
      s'.accounts.find account = some state' ∧ state'.messages = state.messages.erase key ∧
      s'.totalMessages + 1 = s.totalMessages := by
  have hsound := h.account account state hstate
  obtain ⟨counts, hdrop, hcounts⟩ := hsound.dropCount hmessage
  have hsize := size_erase hmessage
  have hbytes := bytesOf_erase hmessage
  have hown : projection.size ≤ state.messageBytes := by
    rw [hsound.bytes]
    omega
  have hmessages : 1 ≤ s.totalMessages := by
    have hle := size_le_total h hstate
    omega
  have htotal : projection.size ≤ s.totalBytes := by
    have hle := bytes_le_total h hstate
    omega
  have hagesize := size_erase (hsound.aged hmessage)
  have hindexsize := size_erase (find_index h hstate hmessage)
  have hreplaced : AccountStore.Sound
      { s.update account (state.without key projection.cached counts
          (state.messageBytes - projection.size)) with
        ageIndex := s.ageIndex.erase ⟨projection.cached.date, account, key⟩
        totalMessages := s.totalMessages - 1
        totalBytes := s.totalBytes - projection.size } := by
    refine h.replace hstate (hsound.without hmessage hcounts) (find_index_erase h hstate _) ?_ ?_ ?_
    · show _ = s.ageIndex.size + (state.messageAge.erase _).size
      omega
    · show _ = s.totalMessages + (state.messages.erase key).size
      omega
    · show _ = s.totalBytes + (state.messageBytes - projection.size + state.senderBytes)
      omega
  refine ⟨_, _, ?_, hreplaced, ?_, (update_find account).trans (if_pos rfl), rfl, ?_⟩
  · rw [eraseMessage, hstate]
    dsimp only
    rw [hmessage]
    have hsub : sub state.messageBytes projection.cached.bytes =
        some (state.messageBytes - projection.size) := sub_eq hown
    have hsub' : sub s.totalBytes projection.cached.bytes =
        some (s.totalBytes - projection.size) := sub_eq htotal
    simp only [hsound.cached, hmessage, Option.map_some, Option.getD_some, hdrop, hsub, hsub',
      sub_eq hmessages, Option.bind_eq_bind, Option.bind_some]
    rfl
  · refine AccountStore.Smaller.replace hstate ?_ ?_ (Nat.le_refl _) (Nat.sub_le _ _) (Nat.sub_le _ _)
    · show (state.messages.erase key).size ≤ state.messages.size
      omega
    · intro chat
      show inChat (state.messages.erase key) chat ≤ inChat state.messages chat
      have hchat := inChat_erase hmessage chat
      omega
  · show s.totalMessages - 1 + 1 = s.totalMessages
    omega

end

theorem eraseMessage_sound (h : s.Sound) (account : ℕ) (key : MessageKey) :
    ∃ s', s.eraseMessage account key = some s' ∧ s'.Sound ∧ s'.Smaller s ∧
      ∀ state', s'.accounts.find account = some state' → state'.messages.find key = none := by
  cases hstate : s.accounts.find account with
  | none =>
    refine ⟨s, ?_, h, .refl s, ?_⟩
    · rw [eraseMessage, hstate]
    · intro state' hfind
      rw [hstate] at hfind
      cases hfind
  | some state =>
    cases hmessage : state.messages.find key with
    | none =>
      refine ⟨s, ?_, h, .refl s, ?_⟩
      · rw [eraseMessage, hstate]
        dsimp only
        rw [hmessage]
      · intro state' hfind
        rw [hstate, Option.some.injEq] at hfind
        rw [← hfind, hmessage]
    | some projection =>
      obtain ⟨s', state', herase, hsound, hsmaller, hstate', hmessages, -⟩ :=
        eraseMessage_spec h hstate hmessage
      refine ⟨s', herase, hsound, hsmaller, ?_⟩
      intro state'' hfind
      rw [hstate', Option.some.injEq] at hfind
      rw [← hfind, hmessages, find_erase, if_pos rfl]

theorem AccountState.Sound.insert (h : state.Sound) (hnone : state.messages.find key = none) :
    (state.insert key projection).Sound := by
  have hmeta : state.messageMeta.find key = none := by
    rw [h.cached, hnone, Option.map_none]
  have hage : state.messageAge.find ⟨projection.cached.date, key⟩ = none := by
    have hne : ¬ (none : Option ℤ) = some projection.cached.date := nofun
    rw [h.age, hnone, Option.map_none, if_neg hne]
  have hsize := size_put projection hnone
  have hchat := inChat_put hnone projection
  refine ⟨?_, ?_, ?_, ?_, ?_, ?_, h.names, h.order⟩
  · intro key'
    show (state.messageMeta.put key projection.cached).find key' =
      ((state.messages.put key projection).find key').map _
    rw [find_put, find_put]
    split
    · rfl
    · exact h.cached key'
  · show (state.messageMeta.put key _).size = (state.messages.put key projection).size
    rw [size_put _ hmeta, hsize, h.metaSize]
  · intro age
    show (state.messageAge.put ⟨projection.cached.date, key⟩ ()).find age =
      if ((state.messages.put key projection).find age.key).map _ = some age.date
      then some () else none
    rw [find_put, find_put, h.age]
    by_cases hkey : age.key = key
    · have hne : ¬ (none : Option ℤ) = some age.date := nofun
      rw [if_pos hkey, hkey, hnone, Option.map_none, if_neg hne, Option.map_some]
      refine if_congr ?_ rfl rfl
      obtain ⟨date, key'⟩ := age
      cases hkey
      rw [Age.mk.injEq, Option.some.injEq]
      simp [eq_comm]
    · have hne : age ≠ ⟨projection.cached.date, key⟩ := fun heq => hkey (by rw [heq])
      rw [if_neg hkey, if_neg hne]
  · show (state.messageAge.put _ ()).size = (state.messages.put key projection).size
    rw [size_put _ hage, hsize, h.ageSize]
  · intro chat
    show (state.chatMessageCounts.put key.chat _).find chat =
      if inChat (state.messages.put key projection) chat = 0 then none
      else some (inChat (state.messages.put key projection) chat)
    rw [find_put, hchat, h.counts, h.counts]
    by_cases heq : chat = key.chat
    · subst heq
      generalize inChat state.messages key.chat = n
      rw [if_pos rfl, if_pos rfl, if_neg (Nat.succ_ne_zero n)]
      by_cases hzero : n = 0
      · rw [if_pos hzero, hzero]
        rfl
      · rw [if_neg hzero]
        rfl
    · rw [if_neg heq, if_neg (Ne.symm heq), Nat.add_zero]
  · show state.messageBytes + projection.size = bytesOf (state.messages.put key projection)
    have herase := sum_erase (m := state.messages) key fun entry => entry.2.size
    rw [hnone, Option.elim_none, Nat.add_zero] at herase
    rw [bytesOf, sum_put, herase, h.bytes]
    rfl

theorem insertMessage_sound (h : s.Sound) (hstate : s.accounts.find account = some state)
    (hnone : state.messages.find key = none) (projection : Projection) :
    (s.insertMessage account state key projection).Sound := by
  have hsound := h.account account state hstate
  have hage : state.messageAge.find ⟨projection.cached.date, key⟩ = none := by
    have hne : ¬ (none : Option ℤ) = some projection.cached.date := nofun
    rw [hsound.age, hnone, Option.map_none, if_neg hne]
  have hindex : s.ageIndex.find ⟨projection.cached.date, account, key⟩ = none := by
    rw [h.index]
    rw [hstate, Option.bind_some, hage]
  refine h.replace hstate (hsound.insert hnone) ?_ ?_ ?_ ?_
  · intro age
    show (s.ageIndex.put _ ()).find age = if age.account = account
      then (state.messageAge.put ⟨projection.cached.date, key⟩ ()).find ⟨age.date, age.key⟩
      else s.ageIndex.find age
    rw [find_put, find_put]
    obtain ⟨date', account', key'⟩ := age
    by_cases heq : account' = account
    · subst heq
      rw [if_pos rfl, h.index]
      rw [hstate, Option.bind_some]
      refine if_congr ?_ rfl rfl
      rw [AgeKey.mk.injEq, Age.mk.injEq]
      simp
    · rw [if_neg heq, if_neg (by simp [heq])]
  · show (s.ageIndex.put _ ()).size + _ = _ + (state.messageAge.put _ ()).size
    rw [size_put _ hindex, size_put _ hage]
    omega
  · show _ = s.totalMessages + (state.messages.put key projection).size
    rw [size_put _ hnone]
    omega
  · show _ = s.totalBytes + (state.messageBytes + projection.size + state.senderBytes)
    have hsame : projection.cached.bytes = projection.size := rfl
    omega

/-! ### The loops -/

theorem find_oldest {chat : ℤ} (h : 0 < inChat messages chat) : ∃ entry ∈ messages.entries,
      (messages.entries.find? fun entry => chat ≤ entry.1.chat) = some entry ∧
        entry.1.chat = chat := by
  have hexists : ∃ entry ∈ messages.entries, entry.1.chat = chat := by
    by_contra hnone
    rw [inChat, OrderedMap.sum] at h
    have hzero : (messages.entries.map fun entry => if entry.1.chat = chat then 1 else 0).sum = 0 := by
      rw [sum_eq_zero]
      intro n hn
      obtain ⟨entry, hentry, rfl⟩ := mem_map.1 hn
      exact if_neg fun heq => hnone ⟨entry, hentry, heq⟩
    omega
  obtain ⟨entries, sorted⟩ := messages
  clear h
  induction entries with
  | nil =>
    obtain ⟨entry, hentry, -⟩ := hexists
    cases hentry
  | cons first entries ih =>
    rw [pairwise_cons] at sorted
    obtain ⟨entry, hentry, hchat⟩ := hexists
    by_cases hle : chat ≤ first.1.chat
    · refine ⟨first, mem_cons_self, List.find?_cons_of_pos (by simpa using hle), ?_⟩
      rcases mem_cons.1 hentry with rfl | hentry
      · exact hchat
      · -- the first entry is before the one of the chat, so its chat is not beyond
        have hlt := sorted.1 entry hentry
        have hle' : first.1.chat ≤ entry.1.chat := by
          rcases Prod.Lex.lt_iff.1 hlt with hlt | ⟨heq, -⟩
          · exact le_of_lt hlt
          · exact le_of_eq heq
        omega
    · rcases mem_cons.1 hentry with rfl | hentry
      · omega
      · obtain ⟨oldest, holdest, hfind, hchat'⟩ := ih sorted.2 ⟨entry, hentry, hchat⟩
        refine ⟨oldest, mem_cons_of_mem _ holdest, ?_, hchat'⟩
        rw [List.find?_cons_of_neg (by simpa using hle)]
        exact hfind

variable {fuel : ℕ}

theorem trimChat_spec {chat : ℤ} (h : s.Sound)
    (hstate : s.accounts.find account = some state) (hsome : 0 < inChat state.messages chat)
    (hfuel : inChat state.messages chat < fuel) :
    ∃ s' state', trimChat fuel s account chat = some s' ∧ s'.Sound ∧ s'.Smaller s ∧
      s'.accounts.find account = some state' ∧ inChat state'.messages chat ≤ s'.limits.perChat := by
  induction fuel generalizing s state with
  | zero => omega
  | succ fuel ih =>
    have hcount : state.chatMessageCounts.find chat = some (inChat state.messages chat) := by
      rw [(h.account account state hstate).counts, if_neg (by omega)]
    rw [trimChat, hstate]
    dsimp only
    rw [hcount]
    dsimp only
    split
    · rename_i hle
      exact ⟨s, state, rfl, h, .refl s, hstate, hle⟩
    · rename_i hgt
      obtain ⟨oldest, hmem, hfind, hchat⟩ := find_oldest state.messages hsome
      obtain ⟨s', state', herase, hsound, hsmaller, hstate', hmessages, -⟩ :=
        eraseMessage_spec h hstate (find_eq_some_iff.2 hmem)
      have hless := inChat_erase (find_eq_some_iff.2 hmem) chat
      rw [if_pos hchat, ← hmessages] at hless
      have hlimit := s.limits.perChat_pos
      rw [hfind]
      dsimp only
      rw [if_neg (by simpa using hchat), herase]
      obtain ⟨s'', state'', htrim, hsound', hsmaller', hstate'', hle⟩ :=
        ih hsound hstate' (by omega) (by omega)
      exact ⟨s'', state'', htrim, hsound', hsmaller'.trans hsmaller, hstate'', hle⟩

/-- What is evicted is the first that is not active, or else the oldest. -/
theorem inactive_or_head {α : Type*} (ages : List α) (inactive : α → Bool) :
    (∃ age ∈ ages, ((ages.take evictionScan).find? inactive).or ages.head? = some age) ∨
      ages = [] ∧ ((ages.take evictionScan).find? inactive).or ages.head? = none := by
  cases hinactive : (ages.take evictionScan).find? inactive with
  | some age => exact .inl ⟨age, mem_of_mem_take (mem_of_find?_eq_some hinactive), rfl⟩
  | none =>
    cases ages with
    | nil => exact .inr ⟨rfl, rfl⟩
    | cons age rest => exact .inl ⟨age, mem_cons_self, rfl⟩

theorem victim_spec (h : state.Sound) (hsize : 0 < state.messages.size) :
    ∃ key projection, state.victim = some key ∧ state.messages.find key = some projection := by
  have hmem : ∀ age ∈ state.messageAge.entries.map Prod.fst, ∃ projection,
      state.messages.find age.key = some projection := by
    intro age hage
    obtain ⟨⟨age', _⟩, hentry, rfl⟩ := mem_map.1 hage
    have hfind := find_eq_some_iff.2 hentry
    rw [h.age] at hfind
    split at hfind
    · rename_i hdate
      cases hmessage : state.messages.find age'.key with
      | none =>
        rw [hmessage] at hdate
        cases hdate
      | some projection => exact ⟨projection, rfl⟩
    · cases hfind
  rcases inactive_or_head (state.messageAge.entries.map Prod.fst)
    (fun age => !activeChat state age.key.chat) with ⟨age, hage, hchosen⟩ | ⟨hentries, -⟩
  · obtain ⟨projection, hprojection⟩ := hmem age hage
    exact ⟨age.key, projection, congrArg (Option.map Age.key) hchosen, hprojection⟩
  · have hlength : state.messageAge.size = 0 := by
      rw [size, map_eq_nil_iff.1 hentries]
      rfl
    rw [h.ageSize] at hlength
    omega

theorem trimAccount_spec (h : s.Sound)
    (hstate : s.accounts.find account = some state) (hfuel : state.messages.size < fuel) :
    ∃ s' state', trimAccount fuel s account = some s' ∧ s'.Sound ∧ s'.Smaller s ∧
      s'.accounts.find account = some state' ∧ state'.messages.size ≤ s'.limits.perAccount := by
  induction fuel generalizing s state with
  | zero => omega
  | succ fuel ih =>
    rw [trimAccount, hstate]
    dsimp only
    split
    · rename_i hle
      exact ⟨s, state, rfl, h, .refl s, hstate, hle⟩
    · rename_i hgt
      obtain ⟨key, projection, hvictim, hmessage⟩ :=
        victim_spec (h.account account state hstate) (by omega)
      obtain ⟨s', state', herase, hsound, hsmaller, hstate', hmessages, -⟩ :=
        eraseMessage_spec h hstate hmessage
      have hless := size_erase hmessage
      rw [← hmessages] at hless
      rw [hvictim]
      dsimp only
      rw [herase]
      obtain ⟨s'', state'', htrim, hsound', hsmaller', hstate'', hle⟩ :=
        ih hsound hstate' (by omega)
      exact ⟨s'', state'', htrim, hsound', hsmaller'.trans hsmaller, hstate'', hle⟩

theorem process_victim_spec (h : s.Sound) :
    (s.victim = none ∧ s.totalMessages = 0) ∨
      ∃ account key state projection, s.victim = some (account, key) ∧
        s.accounts.find account = some state ∧ state.messages.find key = some projection := by
  have hmem : ∀ age ∈ s.ageIndex.entries.map Prod.fst, ∃ state projection,
      s.accounts.find age.account = some state ∧ state.messages.find age.key = some projection := by
    intro age hage
    obtain ⟨⟨age', _⟩, hentry, rfl⟩ := mem_map.1 hage
    have hfind := find_eq_some_iff.2 hentry
    rw [h.index] at hfind
    cases hstate : s.accounts.find age'.account with
    | none =>
      rw [hstate] at hfind
      cases hfind
    | some state =>
      rw [hstate, Option.bind_some, (h.account age'.account state hstate).age] at hfind
      split at hfind
      · rename_i hdate
        cases hmessage : state.messages.find age'.key with
        | none =>
          rw [hmessage] at hdate
          cases hdate
        | some projection => exact ⟨state, projection, rfl, hmessage⟩
      · cases hfind
  rcases inactive_or_head (s.ageIndex.entries.map Prod.fst) (fun age =>
    !(s.accounts.find age.account).any fun account => activeChat account age.key.chat) with
    ⟨age, hage, hchosen⟩ | ⟨hentries, hnone⟩
  · obtain ⟨state, projection, hstate, hprojection⟩ := hmem age hage
    exact .inr ⟨age.account, age.key, state, projection,
      congrArg (Option.map fun age : AgeKey => (age.account, age.key)) hchosen, hstate, hprojection⟩
  · refine .inl ⟨congrArg (Option.map fun age : AgeKey => (age.account, age.key)) hnone, ?_⟩
    have hlength : s.ageIndex.size = 0 := by
      rw [size, map_eq_nil_iff.1 hentries]
      rfl
    have hsame : (s.accounts.total fun state => state.messages.size) =
        s.accounts.total fun state => state.messageAge.size := by
      refine congrArg List.sum (map_congr_left fun entry hentry => ?_)
      exact (h.account entry.1 entry.2 (find_eq_some_iff.2 hentry)).ageSize.symm
    rw [h.messages, hsame, ← h.indexSize, hlength]

theorem enforceProcessBudget_spec (h : s.Sound) (hfuel : s.totalMessages < fuel) :
    ∃ s', enforceProcessBudget fuel s = some s' ∧ s'.Sound ∧ s'.Smaller s ∧
      s'.totalMessages ≤ s'.limits.perProcess ∧
      (s'.totalBytes ≤ s'.limits.projectionBytes ∨ s'.totalMessages = 0) := by
  induction fuel generalizing s with
  | zero => omega
  | succ fuel ih =>
    rw [enforceProcessBudget]
    split
    · rename_i hle
      exact ⟨s, rfl, h, .refl s, hle.1, .inl hle.2⟩
    · rcases process_victim_spec h with ⟨hnone, hzero⟩ | ⟨account, key, state, projection, hvictim,
        hstate, hmessage⟩
      · rw [hnone]
        exact ⟨s, rfl, h, .refl s, by omega, .inr hzero⟩
      · obtain ⟨s', state', herase, hsound, hsmaller, -, -, hless⟩ :=
          eraseMessage_spec h hstate hmessage
        rw [hvictim]
        dsimp only
        rw [herase]
        obtain ⟨s'', htrim, hsound', hsmaller', hbounds⟩ := ih hsound (by omega)
        exact ⟨s'', htrim, hsound', hsmaller'.trans hsmaller, hbounds⟩

/-! ### The operations -/

theorem AccountStore.Bounded.smaller (h : s.Bounded) (hsmaller : s'.Smaller s) : s'.Bounded := by
  have hlimits := hsmaller.limits
  refine ⟨?_, ?_, ?_, ?_, ?_⟩
  · intro account state' hstate' chat
    obtain ⟨state, hstate, -, hchat, -⟩ := hsmaller.account account state' hstate'
    rw [hlimits]
    exact (hchat chat).trans (h.chat account state hstate chat)
  · intro account state' hstate'
    obtain ⟨state, hstate, hsize, -⟩ := hsmaller.account account state' hstate'
    rw [hlimits]
    exact hsize.trans (h.account account state hstate)
  · intro account state' hstate'
    obtain ⟨state, hstate, -, -, hnames⟩ := hsmaller.account account state' hstate'
    rw [hlimits]
    exact hnames.trans (h.names account state hstate)
  · rw [hlimits]
    exact hsmaller.messages.trans h.messages
  · have hmessages := hsmaller.messages
    rw [hlimits]
    exact h.bytes.imp hsmaller.bytes.trans fun hzero => by omega

theorem putMessage_spec (h : s.Sound) (hbounded : s.Bounded)
    (hfuel : s.limits.perProcess + 2 ≤ fuel) (account : ℕ) (key : MessageKey)
    (projection : Projection) :
    ∃ s', s.putMessage fuel account key projection = some s' ∧ s'.Sound ∧ s'.Bounded ∧
      s'.limits = s.limits := by
  obtain ⟨s₁, herase, hsound₁, hsmaller₁, hgone⟩ := eraseMessage_sound h account key
  have hbounded₁ := hbounded.smaller hsmaller₁
  have hlimits₁ := hsmaller₁.limits
  rw [putMessage, herase, Option.bind_eq_bind, Option.bind_some]
  cases hstate₁ : s₁.accounts.find account with
  | none => exact ⟨s₁, rfl, hsound₁, hbounded₁, hlimits₁⟩
  | some state₁ =>
    cases hdate : projection.date with
    | none => exact ⟨s₁, rfl, hsound₁, hbounded₁, hlimits₁⟩
    | some date =>
      dsimp only
      have hnone := hgone state₁ hstate₁
      have hsound₂ := insertMessage_sound hsound₁ hstate₁ hnone projection
      have hput := size_put projection hnone
      have hchat₂ := inChat_put hnone projection
      have hstate₂ : (s₁.insertMessage account state₁ key projection).accounts.find account =
          some (state₁.insert key projection) := (update_find account).trans (if_pos rfl)
      have hsize₁ := hbounded₁.account account state₁ hstate₁
      have hle := s.limits.perAccount_le
      -- the chat of the message is the only one that may be beyond its limit
      have hsize₂ : (state₁.insert key projection).messages.size ≤ s.limits.perAccount + 1 := by
        show (state₁.messages.put key projection).size ≤ _
        rw [hput]
        rw [hlimits₁] at hsize₁
        omega
      have hpos : 0 < inChat (state₁.insert key projection).messages key.chat := by
        show 0 < inChat (state₁.messages.put key projection) key.chat
        rw [hchat₂, if_pos rfl]
        omega
      have hinchat := inChat_le_size (state₁.insert key projection).messages key.chat
      obtain ⟨s₃, state₃, htrim₃, hsound₃, hsmaller₃, hstate₃, hwithin₃⟩ :=
        trimChat_spec hsound₂ hstate₂ hpos (by omega : _ < fuel)
      obtain ⟨state₂', hstate₂', hsize₃, -⟩ := hsmaller₃.account account state₃ hstate₃
      rw [hstate₂, Option.some.injEq] at hstate₂'
      rw [← hstate₂'] at hsize₃
      obtain ⟨s₄, state₄, htrim₄, hsound₄, hsmaller₄, hstate₄, hwithin₄⟩ :=
        trimAccount_spec hsound₃ hstate₃ (by omega : _ < fuel)
      have htotal₂ : (s₁.insertMessage account state₁ key projection).totalMessages ≤
          s.limits.perProcess + 1 := by
        have htotal₁ := hbounded₁.messages
        rw [hlimits₁] at htotal₁
        exact Nat.succ_le_succ htotal₁
      have htotal₃ := hsmaller₃.messages
      have htotal₄ := hsmaller₄.messages
      obtain ⟨s₅, htrim₅, hsound₅, hsmaller₅, hmessages₅, hbytes₅⟩ :=
        enforceProcessBudget_spec hsound₄ (by omega : _ < fuel)
      have hlimits₃ : s₃.limits = s.limits := hsmaller₃.limits.trans hlimits₁
      have hlimits₅ : s₅.limits = s.limits :=
        (hsmaller₅.trans (hsmaller₄.trans hsmaller₃)).limits.trans hlimits₁
      refine ⟨s₅, ?_, hsound₅, ⟨?_, ?_, ?_, hmessages₅, hbytes₅⟩, hlimits₅⟩
      · rw [htrim₃, Option.bind_some, htrim₄, Option.bind_some, htrim₅]
      · intro account' state₅ hstate₅ chat
        obtain ⟨state₃', hstate₃', -, hchat₃, -⟩ :=
          (hsmaller₅.trans hsmaller₄).account account' state₅ hstate₅
        refine (hchat₃ chat).trans ?_
        by_cases hthis : account' = account ∧ chat = key.chat
        · obtain ⟨rfl, rfl⟩ := hthis
          rw [hstate₃, Option.some.injEq] at hstate₃'
          rw [← hstate₃', hlimits₅, ← hlimits₃]
          exact hwithin₃
        · obtain ⟨state₂, hfind₂, -, hchat, -⟩ := hsmaller₃.account account' state₃' hstate₃'
          refine (hchat chat).trans ?_
          have hfind₂' := (update_find (s := s₁) account').symm.trans hfind₂
          rw [hlimits₅, ← hlimits₁]
          split at hfind₂'
          · rename_i heq
            rw [Option.some.injEq] at hfind₂'
            rw [← hfind₂']
            show inChat (state₁.messages.put key projection) chat ≤ _
            rw [hchat₂, if_neg fun hkey => hthis ⟨heq, hkey.symm⟩, Nat.add_zero]
            exact hbounded₁.chat account state₁ hstate₁ chat
          · exact hbounded₁.chat account' state₂ hfind₂' chat
      · intro account' state₅ hstate₅
        obtain ⟨state₄', hstate₄', hsize₅, -⟩ := hsmaller₅.account account' state₅ hstate₅
        refine hsize₅.trans ?_
        by_cases hthis : account' = account
        · subst hthis
          rw [hstate₄, Option.some.injEq] at hstate₄'
          rw [← hstate₄', hsmaller₅.limits]
          exact hwithin₄
        · obtain ⟨state₂, hfind₂, hsize, -⟩ :=
            (hsmaller₄.trans hsmaller₃).account account' state₄' hstate₄'
          have hfind₂' := (update_find (s := s₁) account').symm.trans hfind₂
          rw [if_neg hthis] at hfind₂'
          rw [hlimits₅, ← hlimits₁]
          exact hsize.trans (hbounded₁.account account' state₂ hfind₂')
      · intro account' state₅ hstate₅
        obtain ⟨state₂, hfind₂, -, -, hnames⟩ :=
          (hsmaller₅.trans (hsmaller₄.trans hsmaller₃)).account account' state₅ hstate₅
        refine hnames.trans ?_
        have hfind₂' := (update_find (s := s₁) account').symm.trans hfind₂
        rw [hlimits₅, ← hlimits₁]
        split at hfind₂'
        · rw [Option.some.injEq] at hfind₂'
          rw [← hfind₂']
          exact hbounded₁.names account state₁ hstate₁
        · exact hbounded₁.names account' state₂ hfind₂'

theorem AccountState.Sound.cleared (h : state.Sound) : state.cleared.Sound := by
  have hnone : ∀ age : Age, ¬ (none : Option ℤ) = some age.date := fun _ => nofun
  refine ⟨fun _ => rfl, rfl, fun age => ?_, rfl, fun _ => rfl, rfl, h.names, h.order⟩
  exact (if_neg (hnone age)).symm

theorem find_foldl_erase (entries : List (Age × Unit)) (account : ℕ)
    (index : OrderedMap AgeKey Unit) (age : AgeKey) :
    (entries.foldl (fun index entry => index.erase ⟨entry.1.date, account, entry.1.key⟩) index).find
        age =
      if age.account = account ∧ (⟨age.date, age.key⟩ : Age) ∈ entries.map Prod.fst then none
      else index.find age := by
  induction entries generalizing index with
  | nil => simp
  | cons entry entries ih =>
    rw [foldl_cons, ih, find_erase, map_cons]
    obtain ⟨date, account', key⟩ := age
    obtain ⟨⟨date', key'⟩, _⟩ := entry
    by_cases hmem : account' = account ∧ (⟨date, key⟩ : Age) ∈ entries.map Prod.fst
    · rw [if_pos hmem, if_pos ⟨hmem.1, mem_cons_of_mem _ hmem.2⟩]
    · rw [if_neg hmem]
      refine if_congr ?_ rfl rfl
      rw [AgeKey.mk.injEq, mem_cons, Age.mk.injEq]
      constructor
      · rintro ⟨rfl, rfl, rfl⟩
        exact ⟨rfl, .inl ⟨rfl, rfl⟩⟩
      · rintro ⟨rfl, ⟨rfl, rfl⟩ | hrest⟩
        · exact ⟨rfl, rfl, rfl⟩
        · exact absurd ⟨rfl, hrest⟩ hmem

theorem size_foldl_erase (entries : List (Age × Unit)) (account : ℕ)
    (index : OrderedMap AgeKey Unit) (hnodup : (entries.map Prod.fst).Nodup)
    (hindex : ∀ entry ∈ entries, index.find ⟨entry.1.date, account, entry.1.key⟩ = some ()) :
    (entries.foldl (fun index entry => index.erase ⟨entry.1.date, account, entry.1.key⟩)
      index).size + entries.length = index.size := by
  induction entries generalizing index with
  | nil => rfl
  | cons entry entries ih =>
    rw [map_cons, nodup_cons] at hnodup
    have hsize := size_erase (hindex entry mem_cons_self)
    have hrest := ih (index.erase ⟨entry.1.date, account, entry.1.key⟩) hnodup.2 ?_
    · rw [foldl_cons, length_cons]
      omega
    · intro other hother
      have hne : (⟨other.1.date, account, other.1.key⟩ : AgeKey) ≠
          ⟨entry.1.date, account, entry.1.key⟩ := by
        intro heq
        rw [AgeKey.mk.injEq] at heq
        have hsame : other.1 = entry.1 := by
          obtain ⟨⟨date, key⟩, _⟩ := other
          obtain ⟨⟨date', key'⟩, _⟩ := entry
          obtain ⟨rfl, -, rfl⟩ := heq
          rfl
        exact hnodup.1 (hsame ▸ mem_map_of_mem hother)
      rw [find_erase, if_neg hne]
      exact hindex other (mem_cons_of_mem _ hother)

theorem nodup_keys {κ α : Type} [LinearOrder κ] (m : OrderedMap κ α) :
    (m.entries.map Prod.fst).Nodup :=
  pairwise_map.2 (m.sorted.imp fun hlt => ne_of_lt hlt)

theorem clearMessages_spec (h : s.Sound) (account : ℕ) :
    ∃ s', s.clearMessages account = some s' ∧ s'.Sound ∧ s'.Smaller s := by
  cases hstate : s.accounts.find account with
  | none =>
    refine ⟨s, ?_, h, .refl s⟩
    rw [clearMessages, hstate]
  | some state =>
    have hsound := h.account account state hstate
    have hmessages := size_le_total h hstate
    have hbytes : state.messageBytes ≤ s.totalBytes := by
      have hle := bytes_le_total h hstate
      omega
    have hindexed : ∀ entry ∈ state.messageAge.entries,
        s.ageIndex.find ⟨entry.1.date, account, entry.1.key⟩ = some () := by
      rintro ⟨age, _⟩ hentry
      rw [h.index]
      rw [hstate, Option.bind_some]
      exact find_eq_some_iff.2 hentry
    have hsize := size_foldl_erase state.messageAge.entries account s.ageIndex
      (nodup_keys state.messageAge) hindexed
    have hage := hsound.ageSize
    have hempty : ∀ {κ α : Type} [LinearOrder κ], ({} : OrderedMap κ α).size = 0 := rfl
    have hreplaced : AccountStore.Sound
        { s.update account state.cleared with
          ageIndex := state.messageAge.entries.foldl
            (fun index entry => index.erase ⟨entry.1.date, account, entry.1.key⟩) s.ageIndex
          totalMessages := s.totalMessages - state.messages.size
          totalBytes := s.totalBytes - state.messageBytes } := by
      refine h.replace hstate hsound.cleared ?_ ?_ ?_ ?_
      · intro age
        rw [find_foldl_erase]
        by_cases haccount : age.account = account
        · rw [if_pos haccount]
          show _ = none
          by_cases hmem : (⟨age.date, age.key⟩ : Age) ∈ state.messageAge.entries.map Prod.fst
          · rw [if_pos ⟨haccount, hmem⟩]
          · rw [if_neg fun hboth => hmem hboth.2, h.index, haccount, hstate, Option.bind_some]
            cases hfind : state.messageAge.find ⟨age.date, age.key⟩ with
            | none => rfl
            | some _ =>
              exact absurd (mem_map_of_mem (find_eq_some_iff.1 hfind)) hmem
        · rw [if_neg haccount, if_neg fun hboth => haccount hboth.1]
      · show _ = s.ageIndex.size + 0
        rw [Nat.add_zero, ← hsize]
        rfl
      · show _ = s.totalMessages + 0
        omega
      · show _ = s.totalBytes + (0 + state.senderBytes)
        omega
    refine ⟨_, ?_, hreplaced, ?_⟩
    · rw [clearMessages, hstate]
      simp only [sub_eq hmessages, sub_eq hbytes, Option.bind_eq_bind, Option.bind_some]
      rfl
    · exact AccountStore.Smaller.replace hstate (Nat.zero_le _) (fun _ => Nat.zero_le _)
        (Nat.le_refl _) (Nat.sub_le _ _) (Nat.sub_le _ _)

theorem AccountStore.Sound.replaceNames (h : s.Sound) (hstate : s.accounts.find account = some state)
    (hnew : state'.Sound) (hage : state'.messageAge = state.messageAge)
    (hmessages : state'.messages = state.messages)
    (hown : state'.messageBytes = state.messageBytes) (totalBytes : ℕ)
    (hbytes : totalBytes + state.senderBytes = s.totalBytes + state'.senderBytes) :
    AccountStore.Sound { s.update account state' with totalBytes } := by
  have hreplaced : AccountStore.Sound { s.update account state' with
      ageIndex := s.ageIndex
      totalMessages := s.totalMessages
      totalBytes } := by
    refine h.replace hstate hnew ?_ ?_ ?_ ?_
    · intro age
      by_cases haccount : age.account = account
      · rw [if_pos haccount, hage, h.index, haccount, hstate, Option.bind_some]
      · rw [if_neg haccount]
    · rw [hage]
    · rw [hmessages]
    · omega
  exact hreplaced

theorem nameBytes_le (h : state.Sound) {key name : String}
    (hname : state.senderNames.find key = some name) :
    (state.senderNames.erase key).sum nameBytes + nameBytes (key, name) =
      state.senderBytes := by
  have herase := sum_erase (m := state.senderNames) key nameBytes
  rw [hname, Option.elim_some] at herase
  rw [h.names, herase]

section

variable (h : s.Sound)
include h

section

variable (hstate : s.accounts.find account = some state)
include hstate

theorem senderBytes_le_total :
    state.senderBytes ≤ s.totalBytes := by
  have hle := bytes_le_total h hstate
  omega

theorem insertName_spec (key name : String) :
    ∃ state' totalBytes, s.insertName account state key name =
        some { s.update account state' with totalBytes } ∧
      AccountStore.Sound { s.update account state' with totalBytes } ∧
      state'.messages = state.messages ∧ state'.senderNames.size ≤ state.senderNames.size + 1 := by
  have hsound := h.account account state hstate
  have htotal := senderBytes_le_total h hstate
  have hput : (state.senderNames.put key name).sum nameBytes =
      (state.senderNames.erase key).sum nameBytes + nameBytes (key, name) :=
    sum_put key name nameBytes
  cases hname : state.senderNames.find key with
  | some old =>
    have hold := nameBytes_le hsound hname
    have hnew : AccountState.Sound { state with
        senderNames := state.senderNames.put key name
        senderBytes := state.senderBytes - nameBytes (key, old) +
          nameBytes (key, name) } := by
      refine ⟨hsound.cached, hsound.metaSize, hsound.age, hsound.ageSize, hsound.counts, hsound.bytes,
        ?_, hsound.order.1, fun key' => ?_⟩
      · show state.senderBytes - nameBytes (key, old) +
          nameBytes (key, name) = (state.senderNames.put key name).sum nameBytes
        omega
      · rw [hsound.order.2, find_put]
        split
        · rename_i heq
          rw [heq, hname]
          exact iff_of_true rfl rfl
        · exact Iff.rfl
    refine ⟨_, s.totalBytes - nameBytes (key, old) + nameBytes (key, name),
      ?_, h.replaceNames hstate hnew rfl rfl rfl _ ?_, rfl, ?_⟩
    · rw [insertName, hname]
      simp only [sub_eq (by omega : nameBytes (key, old) ≤ state.senderBytes),
        sub_eq (by omega : nameBytes (key, old) ≤ s.totalBytes), Option.bind_eq_bind,
        Option.bind_some]
      rfl
    · show _ = s.totalBytes + (state.senderBytes - nameBytes (key, old) +
        nameBytes (key, name))
      omega
    · have hsize := size_erase hname
      rw [OrderedMap.size_eq_sum, sum_put, ← OrderedMap.size_eq_sum]
      omega
  | none =>
    have hnew : AccountState.Sound { state with
        senderNames := state.senderNames.put key name
        senderOrder := state.senderOrder ++ [key]
        senderBytes := state.senderBytes + nameBytes (key, name) } := by
      refine ⟨hsound.cached, hsound.metaSize, hsound.age, hsound.ageSize, hsound.counts, hsound.bytes,
        ?_, ?_, fun key' => ?_⟩
      · have herase := sum_erase (m := state.senderNames) key nameBytes
        rw [hname, Option.elim_none, Nat.add_zero] at herase
        rw [hput, herase, hsound.names]
      · refine nodup_append.2 ⟨hsound.order.1, nodup_singleton key, ?_⟩
        intro key' hkey' other hother heq
        rw [mem_singleton] at hother
        rw [hsound.order.2, heq, hother, hname] at hkey'
        cases hkey'
      · show key' ∈ state.senderOrder ++ [key] ↔
          ((state.senderNames.put key name).find key').isSome
        rw [mem_append, mem_singleton, hsound.order.2, find_put]
        split
        · rename_i heq
          exact iff_of_true (.inr heq) rfl
        · rename_i hne
          exact or_iff_left hne
    refine ⟨_, s.totalBytes + nameBytes (key, name), ?_,
      h.replaceNames hstate hnew rfl rfl rfl _ ?_, rfl, ?_⟩
    · rw [insertName, hname]
      rfl
    · show _ = s.totalBytes + (state.senderBytes + nameBytes (key, name))
      omega
    · exact Nat.le_of_eq (size_put name hname)

theorem trimNames_spec (hfuel : state.senderNames.size < fuel) :
    ∃ s' state', trimNames fuel s account = some s' ∧ s'.Sound ∧ s'.Smaller s ∧
      s'.accounts.find account = some state' ∧ state'.senderNames.size ≤ s'.limits.perAccount := by
  induction fuel generalizing s state with
  | zero => omega
  | succ fuel ih =>
    have hsound := h.account account state hstate
    rw [trimNames, hstate]
    dsimp only
    split
    · rename_i hle
      exact ⟨s, state, rfl, h, .refl s, hstate, hle⟩
    · rename_i hgt
      cases horder : state.senderOrder with
      | nil =>
        -- every name is in the order
        exfalso
        cases hentries : state.senderNames.entries with
        | nil =>
          rw [size, hentries, length_nil] at hgt
          exact hgt (Nat.zero_le _)
        | cons entry entries =>
          have hfind : state.senderNames.find entry.1 = some entry.2 :=
            find_eq_some_iff.2 (by rw [hentries]; exact mem_cons_self)
          have hmem := (hsound.order.2 entry.1).2 (by rw [hfind]; rfl)
          rw [horder] at hmem
          cases hmem
      | cons key order =>
        have hmem : (state.senderNames.find key).isSome :=
          (hsound.order.2 key).1 (by rw [horder]; exact mem_cons_self)
        obtain ⟨name, hname⟩ := Option.isSome_iff_exists.1 hmem
        have hold := nameBytes_le hsound hname
        have htotal := senderBytes_le_total h hstate
        have hsize := size_erase hname
        have hnodup := hsound.order.1
        rw [horder, nodup_cons] at hnodup
        have hnew : AccountState.Sound { state with
            senderOrder := order
            senderBytes := state.senderBytes - nameBytes (key, name)
            senderNames := state.senderNames.erase key } := by
          refine ⟨hsound.cached, hsound.metaSize, hsound.age, hsound.ageSize, hsound.counts,
            hsound.bytes, ?_, hnodup.2, fun key' => ?_⟩
          · show state.senderBytes - nameBytes (key, name) =
              (state.senderNames.erase key).sum nameBytes
            omega
          · have hin := hsound.order.2 key'
            rw [horder, mem_cons] at hin
            rw [find_erase]
            split
            · rename_i heq
              rw [heq]
              exact iff_of_false hnodup.1 Bool.noConfusion
            · rename_i hne
              rw [← hin]
              exact (or_iff_right hne).symm
        have hreplaced := h.replaceNames hstate hnew rfl rfl rfl
          (s.totalBytes - nameBytes (key, name)) ?_
        · dsimp only
          rw [hname]
          simp only [sub_eq (by omega : nameBytes (key, name) ≤ state.senderBytes),
            sub_eq (by omega : nameBytes (key, name) ≤ s.totalBytes),
            Option.bind_eq_bind, Option.bind_some]
          obtain ⟨s', state', htrim, hsound', hsmaller, hstate', hle⟩ :=
            ih hreplaced ((update_find account).trans (if_pos rfl)) (by
              show (state.senderNames.erase key).size < fuel
              omega)
          refine ⟨s', state', htrim, hsound', hsmaller.trans ?_, hstate', hle⟩
          refine AccountStore.Smaller.replace hstate (Nat.le_refl _) (fun _ => Nat.le_refl _) ?_
            (Nat.le_refl _) (Nat.sub_le _ _)
          show (state.senderNames.erase key).size ≤ state.senderNames.size
          omega
        · show _ = s.totalBytes + (state.senderBytes - nameBytes (key, name))
          omega

end

theorem putSenderName_spec (hbounded : s.Bounded)
    (hfuel : s.limits.perProcess + 2 ≤ fuel) (account : ℕ) (key name : String) :
    ∃ s', s.putSenderName fuel account key name = some s' ∧ s'.Sound ∧ s'.Bounded ∧
      s'.limits = s.limits := by
  rw [putSenderName]
  cases hstate : s.accounts.find account with
  | none => exact ⟨s, rfl, h, hbounded, rfl⟩
  | some state =>
    obtain ⟨state₁, totalBytes, hinsert, hsound₁, hmessages₁, hsize₁⟩ :=
      insertName_spec h hstate key name
    have hle := s.limits.perAccount_le
    have hnames := hbounded.names account state hstate
    have hstate₁ : (s.update account state₁).accounts.find account = some state₁ :=
      (update_find account).trans (if_pos rfl)
    obtain ⟨s₂, state₂, htrim₂, hsound₂, hsmaller₂, hstate₂, hwithin₂⟩ :=
      trimNames_spec hsound₁ hstate₁ (by omega : _ < fuel)
    have hmessages : s₂.totalMessages ≤ s.totalMessages := hsmaller₂.messages
    have hbudget := hbounded.messages
    obtain ⟨s₃, htrim₃, hsound₃, hsmaller₃, hmessages₃, hbytes₃⟩ :=
      enforceProcessBudget_spec hsound₂ (by omega : _ < fuel)
    have hlimits : s₃.limits = s.limits := (hsmaller₃.trans hsmaller₂).limits
    -- an account of the end was there before the insertion, with the same messages
    have hbefore : ∀ account' state₃, s₃.accounts.find account' = some state₃ →
        ∃ state', s.accounts.find account' = some state' ∧
          state₃.messages.size ≤ state'.messages.size ∧
          (∀ chat, inChat state₃.messages chat ≤ inChat state'.messages chat) ∧
          (account' ≠ account → state₃.senderNames.size ≤ state'.senderNames.size) := by
      intro account' state₃ hstate₃
      obtain ⟨state', hstate', hsize, hchat, hnames'⟩ :=
        (hsmaller₃.trans hsmaller₂).account account' state₃ hstate₃
      have hfind := (update_find (s := s) account').symm.trans hstate'
      by_cases hthis : account' = account
      · rw [if_pos hthis, Option.some.injEq] at hfind
        rw [← hfind, hmessages₁] at hsize
        refine ⟨state, hthis ▸ hstate, hsize, fun chat => ?_, fun hne => absurd hthis hne⟩
        rw [← hmessages₁, hfind]
        exact hchat chat
      · rw [if_neg hthis] at hfind
        exact ⟨state', hfind, hsize, hchat, fun _ => hnames'⟩
    refine ⟨s₃, ?_, hsound₃, ⟨?_, ?_, ?_, hmessages₃, hbytes₃⟩, hlimits⟩
    · simp only [hinsert, htrim₂, htrim₃, Option.bind_eq_bind, Option.bind_some]
    · intro account' state₃ hstate₃ chat
      obtain ⟨state', hstate', -, hchat, -⟩ := hbefore account' state₃ hstate₃
      rw [hlimits]
      exact (hchat chat).trans (hbounded.chat account' state' hstate' chat)
    · intro account' state₃ hstate₃
      obtain ⟨state', hstate', hsize, -⟩ := hbefore account' state₃ hstate₃
      rw [hlimits]
      exact hsize.trans (hbounded.account account' state' hstate')
    · intro account' state₃ hstate₃
      by_cases hthis : account' = account
      · subst hthis
        obtain ⟨state', hstate', -, -, hnames'⟩ := hsmaller₃.account account' state₃ hstate₃
        rw [hstate₂, Option.some.injEq] at hstate'
        rw [hsmaller₃.limits]
        exact hnames'.trans (hstate' ▸ hwithin₂)
      · obtain ⟨state', hstate', -, -, hnames'⟩ := hbefore account' state₃ hstate₃
        rw [hlimits]
        exact (hnames' hthis).trans (hbounded.names account' state' hstate')

theorem clearSenderNames_spec (account : ℕ) :
    ∃ s', s.clearSenderNames account = some s' ∧ s'.Sound ∧ s'.Smaller s := by
  rw [clearSenderNames]
  cases hstate : s.accounts.find account with
  | none => exact ⟨s, rfl, h, .refl s⟩
  | some state =>
    have hsound := h.account account state hstate
    have htotal := senderBytes_le_total h hstate
    have hnew : AccountState.Sound
        { state with senderNames := {}, senderOrder := [], senderBytes := 0 } :=
      ⟨hsound.cached, hsound.metaSize, hsound.age, hsound.ageSize, hsound.counts, hsound.bytes, rfl,
        nodup_nil, fun _ => iff_of_false nofun nofun⟩
    refine ⟨_, ?_, h.replaceNames hstate hnew rfl rfl rfl (s.totalBytes - state.senderBytes) ?_, ?_⟩
    · simp only [sub_eq htotal, Option.bind_eq_bind, Option.bind_some]
      rfl
    · show _ = s.totalBytes + 0
      omega
    · exact AccountStore.Smaller.replace hstate (Nat.le_refl _) (fun _ => Nat.le_refl _)
        (Nat.zero_le _) (Nat.le_refl _) (Nat.sub_le _ _)

theorem interest_spec (account : ℕ) (interestCounts : OrderedMap ℤ ℕ) :
    (s.interest account interestCounts).Sound ∧ (s.interest account interestCounts).Smaller s := by
  rw [interest]
  cases hstate : s.accounts.find account with
  | none => exact ⟨h, .refl s⟩
  | some state =>
    have hsound := h.account account state hstate
    have hnew : AccountState.Sound { state with interestCounts } :=
      ⟨hsound.cached, hsound.metaSize, hsound.age, hsound.ageSize, hsound.counts, hsound.bytes,
        hsound.names, hsound.order⟩
    exact ⟨h.replaceNames hstate hnew rfl rfl rfl s.totalBytes rfl,
      AccountStore.Smaller.replace hstate (Nat.le_refl _) (fun _ => Nat.le_refl _) (Nat.le_refl _)
        (Nat.le_refl _) (Nat.le_refl _)⟩

theorem resetSession_spec (account : ℕ) :
    ∃ s', s.resetSession account = some s' ∧ s'.Sound ∧ s'.Smaller s := by
  obtain ⟨s₁, hmessages, hsound₁, hsmaller₁⟩ := clearMessages_spec h account
  obtain ⟨s₂, hnames, hsound₂, hsmaller₂⟩ := clearSenderNames_spec hsound₁ account
  obtain ⟨hsound₃, hsmaller₃⟩ := interest_spec hsound₂ account {}
  refine ⟨_, ?_, hsound₃, hsmaller₃.trans (hsmaller₂.trans hsmaller₁)⟩
  rw [resetSession, hmessages, Option.bind_eq_bind, Option.bind_some, hnames,
    Option.bind_some]
  rfl

theorem update_empty (hnone : s.accounts.find account = none) :
    (s.update account {}).Sound := by
  have htotal : ∀ f : AccountState → ℕ,
      (s.accounts.put account {}).total f = s.accounts.total f + f {} := by
    intro f
    have herase := sum_erase (m := s.accounts) account fun entry => f entry.2
    rw [hnone, Option.elim_none, Nat.add_zero] at herase
    show (s.accounts.put account {}).sum _ = _
    rw [sum_put, herase]
    rfl
  refine ⟨?_, ?_, ?_, ?_, ?_⟩
  · intro account' state hfind
    rw [update_find] at hfind
    split at hfind
    · rw [Option.some.injEq] at hfind
      rw [← hfind]
      refine ⟨fun _ => rfl, rfl, fun _ => ?_, rfl, fun _ => rfl, rfl, rfl, nodup_nil,
        fun _ => iff_of_false not_mem_nil Bool.noConfusion⟩
      exact (if_neg (Option.some_ne_none _).symm).symm
    · exact h.account account' state hfind
  · intro age
    show s.ageIndex.find age = _
    rw [update_find, h.index]
    split
    · rename_i heq
      rw [heq, hnone]
      rfl
    · rfl
  · exact h.indexSize.trans (htotal fun state => state.messageAge.size).symm
  · exact h.messages.trans (htotal fun state => state.messages.size).symm
  · exact h.bytes.trans (htotal fun state => state.messageBytes + state.senderBytes).symm

theorem enter_spec (hbounded : s.Bounded) (account : ℕ) :
    (s.enter account).Sound ∧ (s.enter account).Bounded ∧ (s.enter account).limits = s.limits := by
  rw [enter]
  split
  · exact ⟨h, hbounded, rfl⟩
  · rename_i hnone
    have hnone' : s.accounts.find account = none := Option.not_isSome_iff_eq_none.1 hnone
    have hcases : ∀ account' state, (s.update account {}).accounts.find account' = some state →
        state = {} ∨ s.accounts.find account' = some state := by
      intro account' state hfind
      rw [update_find] at hfind
      split at hfind
      · exact .inl (Option.some.inj hfind).symm
      · exact .inr hfind
    refine ⟨update_empty h hnone', ⟨?_, ?_, ?_, hbounded.messages, hbounded.bytes⟩, rfl⟩
    · intro account' state hstate chat
      rcases hcases account' state hstate with rfl | hold
      · exact Nat.zero_le _
      · exact hbounded.chat account' state hold chat
    · intro account' state hstate
      rcases hcases account' state hstate with rfl | hold
      · exact Nat.zero_le _
      · exact hbounded.account account' state hold
    · intro account' state hstate
      rcases hcases account' state hstate with rfl | hold
      · exact Nat.zero_le _
      · exact hbounded.names account' state hold

end

/-! ### Runs -/

theorem step_spec (h : s.Sound) (hbounded : s.Bounded)
    (hfuel : s.limits.perProcess + 2 ≤ fuel) (operation : Operation) :
    ∃ s', step fuel s operation = some s' ∧ s'.Sound ∧ s'.Bounded ∧ s'.limits = s.limits := by
  have hsmaller : ∀ {result : Option AccountStore},
      (∃ s', result = some s' ∧ s'.Sound ∧ s'.Smaller s) →
      ∃ s', result = some s' ∧ s'.Sound ∧ s'.Bounded ∧ s'.limits = s.limits := by
    rintro result ⟨s', hresult, hsound, hsmaller⟩
    exact ⟨s', hresult, hsound, hbounded.smaller hsmaller, hsmaller.limits⟩
  cases operation with
  | putMessage account key projection => exact putMessage_spec h hbounded hfuel account key projection
  | eraseMessage account key =>
    obtain ⟨s', herase, hsound, hless, -⟩ := eraseMessage_sound h account key
    exact hsmaller ⟨s', herase, hsound, hless⟩
  | clearMessages account => exact hsmaller (clearMessages_spec h account)
  | putSenderName account key name => exact putSenderName_spec h hbounded hfuel account key name
  | clearSenderNames account => exact hsmaller (clearSenderNames_spec h account)
  | resetSession account => exact hsmaller (resetSession_spec h account)
  | interest account interestCounts =>
    exact hsmaller ⟨_, rfl, interest_spec h account interestCounts⟩
  | enter account => exact ⟨_, rfl, enter_spec h hbounded account⟩

theorem run_spec (h : s.Sound) (hbounded : s.Bounded)
    (hfuel : s.limits.perProcess + 2 ≤ fuel) (operations : List Operation) :
    ∃ s', run fuel s operations = some s' ∧ s'.Sound ∧ s'.Bounded := by
  induction operations generalizing s with
  | nil => exact ⟨s, rfl, h, hbounded⟩
  | cons operation operations ih =>
    obtain ⟨s', hstep, hsound, hbounded', hlimits⟩ := step_spec h hbounded hfuel operation
    rw [run, foldlM_cons, hstep, Option.bind_eq_bind, Option.bind_some]
    exact ih hsound hbounded' (hlimits ▸ hfuel)

theorem empty_sound (limits : Limits) : AccountStore.Sound { limits } :=
  ⟨nofun, fun _ => rfl, rfl, rfl, rfl⟩

theorem empty_bounded (limits : Limits) : AccountStore.Bounded { limits } :=
  ⟨nofun, nofun, nofun, Nat.zero_le _, .inl (Nat.zero_le _)⟩

/-- **The cache is consistent and within its limits** after any operations on any accounts, and every
loop of theirs has ended. -/
theorem consistent_of_run (limits : Limits) (extra : ℕ) (operations : List Operation) :
    ∃ s, run (limits.perProcess + 2 + extra) { limits } operations = some s ∧ s.Consistent ∧
      s.Bounded := by
  have hfuel : limits.perProcess + 2 ≤ limits.perProcess + 2 + extra := Nat.le_add_right _ extra
  obtain ⟨s, hrun, hsound, hbounded⟩ :=
    run_spec (empty_sound limits) (empty_bounded limits) hfuel operations
  exact ⟨s, hrun, hsound.consistent, hbounded⟩

end Runtime.MessageCache
