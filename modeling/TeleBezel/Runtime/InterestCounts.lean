import TeleBezel.Runtime.InterestLeases

/-!
# Interests are counted exactly

The count of a chat is the number of leases for it. Leases and counts change together in every way there
is: a lease that is given, renewed, given back, released or expired, the leases of a chat that cannot be
opened, and an account that is closed. A key determines its principal and its chat, so that a renewed
lease is for the same chat, and a release takes those of one principal.
-/

open List

namespace Runtime.Interests

open Fields OrderedMap

/-! ### The keys of leases -/

theorem colon_of_validUuid {value : List Char} (h : validUuid value = true) : ':' ∉ value := by
  intro hmem
  unfold validUuid at h
  rw [Bool.and_eq_true, all_eq_true] at h
  obtain ⟨index, hindex, hvalue⟩ := mem_iff_getElem.mp hmem
  have hplace := h.2 (':', index) (mem_zipIdx_iff_getElem?.mpr (by simp [hindex, hvalue]))
  revert hplace
  dsimp only
  split_ifs <;> decide

structure Keyed (type id viewId : List Char) (chatId : ℤ) (key : List Char) : Prop where
  cleanType : ':' ∉ type
  cleanId : ':' ∉ id
  cleanView : ':' ∉ viewId
  fields : key = field ':' type (field ':' id (field ':' viewId (decimal chatId)))

section Keys

variable {type id viewId type' id' viewId' key : List Char} {chatId chatId' : ℤ}

theorem keyed_of_leaseKey (h : leaseKey type id viewId chatId = some key) :
    Keyed type id viewId chatId key := by
  unfold leaseKey principalPrefix at h
  split_ifs at h with hview hprincipal
  · rw [Option.map_some, Option.some.injEq] at h
    refine ⟨?_, colon_of_validUuid hprincipal.2, colon_of_validUuid hview, ?_⟩
    · have htype := hprincipal.1
      simp only [mem_cons, not_mem_nil, or_false] at htype
      rcases htype with rfl | rfl | rfl <;> decide
    · simpa [keyPrefix, field] using h.symm
  · cases h

theorem Keyed.chatId_eq (h : Keyed type id viewId chatId key) (h' : Keyed type' id' viewId' chatId' key) :
    chatId = chatId' := by
  have hfields := h.fields.symm.trans h'.fields
  obtain ⟨-, hfields⟩ := field_inj h.cleanType h'.cleanType hfields
  obtain ⟨-, hfields⟩ := field_inj h.cleanId h'.cleanId hfields
  obtain ⟨-, hfields⟩ := field_inj h.cleanView h'.cleanView hfields
  exact decimal_injective hfields

theorem Keyed.ofPrincipal_iff (h : Keyed type id viewId chatId key) (htype : ':' ∉ type')
    (hid : ':' ∉ id') (lease : Lease) :
    ofPrincipal type' id' (key, lease) = true ↔ type' = type ∧ id' = id := by
  unfold ofPrincipal keyPrefix
  rw [List.isPrefixOf_iff_prefix, h.fields, field_starts htype h.cleanType, field_starts hid h.cleanId]
  simp

theorem principalOf_field {rest : List Char} (htype : ':' ∉ type) (hid : ':' ∉ id) :
    principalOf (field ':' type (field ':' id rest)) = keyPrefix type id := by
  have hskip : ∀ (value rest : List Char), ':' ∉ value →
      (field ':' value rest).dropWhile (· ≠ ':') = ':' :: rest ∧
        (field ':' value rest).takeWhile (· ≠ ':') = value := by
    intro value rest hvalue
    have hall : ∀ c ∈ value, decide (c ≠ ':') = true := fun c hc =>
      decide_eq_true fun h => hvalue (h ▸ hc)
    unfold field
    rw [dropWhile_append_of_pos hall, takeWhile_append_of_pos hall]
    simp
  unfold principalOf
  rw [(hskip type _ htype).1, (hskip type _ htype).2]
  dsimp only
  rw [(hskip id rest hid).1, (hskip id rest hid).2]
  rfl

end Keys

/-! ### What holds of an account -/

namespace AccountState

def leases (account : AccountState) (chatId : ℤ) : ℕ :=
  account.interests.count fun entry => entry.2.chatId = chatId

def held (account : AccountState) (type id : List Char) : ℕ :=
  account.interests.count (ofPrincipal type id)

end AccountState

def counted (n : ℕ) : Option ℕ := if n = 0 then none else some n

/-- The counts are those of the leases, within the limits. -/
structure Exact (account : AccountState) : Prop where
  counts : ∀ chatId, account.interestCounts.find chatId = counted (account.leases chatId)
  size : account.interests.size ≤ 20
  held : ∀ type id, ':' ∉ type → ':' ∉ id → account.held type id ≤ 4
  keys : ∀ key lease, account.interests.find key = some lease →
    ∃ type id viewId, leaseKey type id viewId lease.chatId = some key

theorem exact_init (session : Session) : Exact { toSession := session } :=
  ⟨fun _ => rfl, Nat.zero_le _, fun _ _ _ _ => Nat.zero_le _, nofun⟩

theorem Exact.congr {account account' : AccountState} (h : Exact account)
    (hinterests : account'.interests = account.interests)
    (hcounts : account'.interestCounts = account.interestCounts) : Exact account' := by
  constructor
  · intro chatId
    unfold AccountState.leases
    rw [hinterests, hcounts]
    exact h.counts chatId
  · exact hinterests ▸ h.size
  · intro type id htype hid
    unfold AccountState.held
    rw [hinterests]
    exact h.held type id htype hid
  · exact hinterests ▸ h.keys

/-! ### Releasing -/

theorem find_releaseCount {counts : OrderedMap ℤ ℕ} {f : ℤ → ℕ}
    (h : ∀ chatId, counts.find chatId = counted (f chatId)) (released chatId : ℤ) :
    (releaseCount counts released).find chatId =
      counted (f chatId - if released = chatId then 1 else 0) := by
  have hreleased := h released
  unfold counted at hreleased
  unfold releaseCount
  split_ifs at hreleased with hzero
  · rw [hreleased]
    rw [h]
    split_ifs with heq
    · rw [← heq, hzero]
    · rfl
  · rw [hreleased]
    dsimp only
    split_ifs with hmore heq heq
    · rw [find_put, if_pos heq.symm, ← heq, counted, if_neg (by omega)]
    · rw [find_put, if_neg fun h => heq h.symm, h]
      rfl
    · rw [find_erase, if_pos heq.symm, ← heq, counted, if_pos (by omega)]
    · rw [find_erase, if_neg fun h => heq h.symm, h]
      rfl

theorem find_releaseCounts (entries : List (List Char × Lease)) {counts : OrderedMap ℤ ℕ} {f : ℤ → ℕ}
    (h : ∀ chatId, counts.find chatId = counted (f chatId)) (chatId : ℤ) :
    (entries.foldl (fun counts entry => releaseCount counts entry.2.chatId) counts).find chatId =
      counted (f chatId - entries.countP fun entry => entry.2.chatId = chatId) := by
  induction entries generalizing counts f with
  | nil => exact h chatId
  | cons entry entries ih =>
    rw [foldl_cons, ih (find_releaseCount h entry.2.chatId), countP_cons, Nat.sub_sub,
      Nat.add_comm]
    simp only [decide_eq_true_eq]

section

variable {account : AccountState} (h : Exact account)
include account h

theorem Exact.releaseWhere
    (kind : List Char × Lease → Bool) : Exact (account.releaseWhere kind) := by
  have hfewer : ∀ other : List Char × Lease → Bool,
      (account.interests.filter fun entry => !kind entry).count other ≤ account.interests.count other :=
    fun other => Nat.le.intro ((Nat.add_comm _ _).trans (count_filter other kind))
  constructor
  · intro chatId
    have hsplit := @OrderedMap.count_filter _ _ _ account.interests
      (fun entry => entry.2.chatId = chatId) kind
    unfold AccountState.releaseWhere AccountState.leases
    rw [find_releaseCounts _ h.counts]
    refine congrArg counted ?_
    unfold AccountState.leases
    rw [← hsplit]
    exact Nat.add_sub_cancel_left _ _
  · exact (filter_sublist.length_le).trans h.size
  · exact fun type id htype hid => (hfewer _).trans (h.held type id htype hid)
  · intro key lease hfind
    unfold AccountState.releaseWhere at hfind
    rw [find_filter, Option.filter_eq_some_iff] at hfind
    exact h.keys key lease hfind.1

theorem Exact.expireLeases (now : ℕ) :
    Exact (account.expireLeases now) := h.releaseWhere _

/-! ### Setting a lease -/

theorem exact_track (chatId : ℤ)
    (active awaitTransition : Bool) : Exact (track account chatId active awaitTransition).1 := by
  unfold track
  dsimp only
  split
  · exact h
  · cases active with
    | true => exact h.congr rfl rfl
    | false => exact h

end

section Lease

variable {account : AccountState} {type id viewId key : List Char} {chatId : ℤ}

theorem Exact.given (h : Exact account) (hkey : leaseKey type id viewId chatId = some key)
    (hnew : account.interests.find key = none) (hsize : account.interests.size < 20)
    (hheld : account.held type id < 4) (expires : ℕ) :
    Exact { account with
      interests := account.interests.put key ⟨chatId, expires⟩
      interestCounts :=
        account.interestCounts.put chatId ((account.interestCounts.find chatId).getD 0 + 1) } := by
  have hfields := keyed_of_leaseKey hkey
  have hcount : ∀ kind : List Char × Lease → Bool,
      (account.interests.put key ⟨chatId, expires⟩).count kind =
        account.interests.count kind + if kind (key, ⟨chatId, expires⟩) then 1 else 0 := by
    intro kind
    have herase := @OrderedMap.count_erase _ _ _ account.interests key kind
    rw [hnew, Option.elim_none, Nat.add_zero] at herase
    rw [count_put, herase]
  constructor
  · intro other
    unfold AccountState.leases
    rw [hcount, find_put]
    by_cases heq : other = chatId
    · have hvalue : (account.interestCounts.find chatId).getD 0 =
          account.interests.count fun entry => entry.2.chatId = chatId := by
        rw [h.counts chatId]
        unfold counted AccountState.leases
        split_ifs with hzero
        · exact hzero.symm
        · rfl
      subst heq
      rw [if_pos rfl, hvalue]
      simp [counted]
    · rw [if_neg heq, h.counts other]
      simp [AccountState.leases, Ne.symm heq]
  · rw [show (account.interests.put key ⟨chatId, expires⟩).size = account.interests.size + 1 from
      size_put _ hnew]
    exact hsize
  · intro type' id' htype hid
    unfold AccountState.held
    rw [hcount]
    split_ifs with hprincipal
    · obtain ⟨rfl, rfl⟩ := (hfields.ofPrincipal_iff htype hid _).mp hprincipal
      exact hheld
    · exact h.held type' id' htype hid
  · intro key' lease hfind
    rw [find_put] at hfind
    split_ifs at hfind with heq
    · obtain rfl := Option.some.inj hfind
      exact ⟨type, id, viewId, heq ▸ hkey⟩
    · exact h.keys key' lease hfind

theorem Exact.renewed (h : Exact account) (hkey : leaseKey type id viewId chatId = some key)
    {lease : Lease} (hold : account.interests.find key = some lease) (expires : ℕ) :
    Exact { account with interests := account.interests.put key ⟨chatId, expires⟩ } := by
  have hchat : lease.chatId = chatId := by
    obtain ⟨_, _, _, hlease⟩ := h.keys key lease hold
    exact (keyed_of_leaseKey hlease).chatId_eq (keyed_of_leaseKey hkey)
  have hcount : ∀ kind : List Char × Lease → Bool,
      kind (key, lease) = kind (key, ⟨chatId, expires⟩) →
        (account.interests.put key ⟨chatId, expires⟩).count kind = account.interests.count kind := by
    intro kind hkind
    have herase := @OrderedMap.count_erase _ _ _ account.interests key kind
    rw [hold, Option.elim_some, hkind] at herase
    rw [OrderedMap.count_put, herase]
  constructor
  · intro other
    unfold AccountState.leases
    rw [hcount _ (by simp [hchat])]
    exact h.counts other
  · have hsize := hcount (fun _ => true) rfl
    simp only [OrderedMap.count, countP_true] at hsize
    exact hsize.le.trans h.size
  · intro type' id' htype hid
    unfold AccountState.held
    rw [hcount _ rfl]
    exact h.held type' id' htype hid
  · intro key' lease' hfind
    rw [OrderedMap.find_put] at hfind
    split_ifs at hfind with heq
    · obtain rfl := Option.some.inj hfind
      exact ⟨type, id, viewId, heq ▸ hkey⟩
    · exact h.keys key' lease' hfind

theorem Exact.givenBack (h : Exact account) {lease : Lease}
    (hold : account.interests.find key = some lease) :
    Exact { account with
      interests := account.interests.erase key
      interestCounts := releaseCount account.interestCounts lease.chatId } := by
  have hcount : ∀ kind : List Char × Lease → Bool, (account.interests.erase key).count kind +
      (if kind (key, lease) then 1 else 0) = account.interests.count kind := by
    intro kind
    have herase := @OrderedMap.count_erase _ _ _ account.interests key kind
    rw [hold] at herase
    exact herase
  constructor
  · intro other
    rw [find_releaseCount h.counts]
    refine congrArg counted ?_
    unfold AccountState.leases
    rw [← hcount]
    simp
  · exact (filter_sublist.length_le).trans h.size
  · exact fun type id htype hid => (Nat.le.intro (hcount _)).trans (h.held type id htype hid)
  · intro key' lease' hfind
    rw [find_erase] at hfind
    split_ifs at hfind
    exact h.keys key' lease' hfind

theorem Exact.setLease (h : Exact account) (hkey : leaseKey type id viewId chatId = some key)
    (active awaitTransition : Bool) (now : ℕ) :
    Exact (setLease account chatId key active awaitTransition now).1 := by
  have hexpired := h.expireLeases now
  have hfields := keyed_of_leaseKey hkey
  unfold Interests.setLease
  dsimp only
  cases hold : (account.expireLeases now).interests.find key with
  | none =>
    cases active with
    | true =>
      split_ifs with hsize hheld
      · exact hexpired
      · exact hexpired
      · refine exact_track ?_ _ _ _
        rw [hfields.fields, principalOf_field hfields.cleanType hfields.cleanId] at hheld
        exact hexpired.given hkey hold (Nat.not_le.mp hsize) (Nat.not_le.mp hheld) _
    | false => exact exact_track hexpired _ _ _
  | some lease =>
    cases active with
    | true => exact exact_track (hexpired.renewed hkey hold _) _ _ _
    | false => exact exact_track (hexpired.givenBack hold) _ _ _

end Lease

/-! ### The thread -/

theorem exact_visit {account : AccountState} (h : Exact account) (uuid : List Char) (now : ℕ) :
    Exact (visit uuid account now).1 := by
  have htracked : Exact (trackOpen account) := h.congr rfl rfl
  have hsettled : Exact ((trackOpen account).expireLeases now).forgetSettled :=
    (htracked.expireLeases now).congr rfl rfl
  unfold visit
  dsimp only
  split_ifs
  · exact hsettled
  · split
    · exact hsettled
    · exact hsettled.congr rfl rfl

theorem Exact.settleChat {account : AccountState} (h : Exact account) (transition : Transition)
    (state : InterestChatState) (outcome : Outcome) (now : ℕ) :
    Exact (settleChat account transition state outcome now) := by
  unfold Interests.settleChat
  split
  · exact h.congr rfl rfl
  · exact h.congr rfl rfl
  · -- the opening failed
    have hsplit : ∀ kind : List Char × Lease → Bool,
        (account.interests.filter fun entry => entry.2.chatId ≠ transition.chatId).count kind +
          (account.interests.filter fun entry => !decide (entry.2.chatId ≠ transition.chatId)).count kind =
        account.interests.count kind := fun kind => count_filter kind _
    constructor
    · intro chatId
      unfold AccountState.leases
      rw [find_erase]
      split_ifs with heq
      · have hnone : (account.interests.filter fun entry =>
            entry.2.chatId ≠ transition.chatId).count (fun entry => entry.2.chatId = chatId) = 0 := by
          refine countP_eq_zero.mpr fun entry hentry => ?_
          have hother := of_decide_eq_true (mem_filter.mp hentry).2
          simpa [heq] using hother
        rw [hnone]
        rfl
      · have hnone : (account.interests.filter fun entry =>
            !decide (entry.2.chatId ≠ transition.chatId)).count
              (fun entry => entry.2.chatId = chatId) = 0 := by
          refine countP_eq_zero.mpr fun entry hentry => ?_
          have hsame : entry.2.chatId = transition.chatId := by
            simpa using (mem_filter.mp hentry).2
          simpa [hsame] using Ne.symm heq
        have hchat := hsplit fun entry => entry.2.chatId = chatId
        rw [hnone, Nat.add_zero] at hchat
        rw [hchat]
        exact h.counts chatId
    · exact (filter_sublist.length_le).trans h.size
    · exact fun type id htype hid => (Nat.le.intro (hsplit _)).trans (h.held type id htype hid)
    · intro key lease hfind
      rw [find_filter, Option.filter_eq_some_iff] at hfind
      exact h.keys key lease hfind.1
  · exact h.congr rfl rfl

/-! ### Runs -/

def Sound (s : State) : Prop := ∀ uuid account, s.accounts.find uuid = some account → Exact account

variable {s : State}

theorem Sound.put (h : Sound s) {uuid : List Char} {account : AccountState}
    (hexact : Exact account) (rotationCursor : List Char) (selected : Option Transition) :
    Sound ⟨s.accounts.put uuid account, rotationCursor, selected⟩ := by
  intro other account' hfind
  rw [find_put] at hfind
  split_ifs at hfind with heq
  · exact Option.some.inj hfind ▸ hexact
  · exact h other account' hfind

theorem sound_scan (now : ℕ) (order : List (List Char)) (h : Sound s) :
    Sound (scan now order s) := by
  induction order generalizing s with
  | nil => exact h
  | cons uuid order ih =>
    rw [scan]
    cases hfind : s.accounts.find uuid with
    | none => exact ih h
    | some account =>
      have hvisited := exact_visit (h uuid account hfind) uuid now
      dsimp only
      rcases hvisit : visit uuid account now with ⟨account', selected⟩
      rw [hvisit] at hvisited
      cases selected with
      | none => exact ih (h.put hvisited _ _)
      | some transition => exact h.put hvisited _ _

theorem sound_settle (h : Sound s) (outcome : Outcome) (now : ℕ) :
    Sound (settle s outcome now) := by
  unfold settle
  split
  · exact h
  · dsimp only
    split
    · exact h
    · rename_i account hfind
      split_ifs
      · exact h
      · split
        · exact h
        · split_ifs
          · exact h
          · exact h.put ((h _ account hfind).settleChat _ _ _ _) _ _

theorem sound_step (h : Sound s) (event : Event) : Sound (step s event) := by
  cases event with
  | setInterest uuid type id viewId chatId active awaitTransition now =>
    rw [step]
    cases hkey : leaseKey type id viewId chatId with
    | none => exact h
    | some key =>
      dsimp only
      unfold setInterest
      split
      · exact h
      · rename_i account hfind
        split_ifs
        · exact h
        · exact h.put ((h uuid account hfind).setLease hkey _ _ _) _ _
  | releaseInterests type id =>
    rw [step]
    split_ifs
    · intro uuid account hfind
      unfold releaseInterests at hfind
      rw [find_map, Option.map_eq_some_iff] at hfind
      obtain ⟨before, hbefore, rfl⟩ := hfind
      exact (h uuid before hbefore).releaseWhere _
    · exact h
  | selectTransition now =>
    rw [step]
    unfold selectTransition
    split
    · exact h
    · exact sound_scan now _ h
  | settle outcome now => exact sound_settle h outcome now
  | account uuid session =>
    have hexact : Exact ((s.accounts.find uuid).getD {}) := by
      cases hfind : s.accounts.find uuid with
      | none => exact exact_init {}
      | some account => exact h uuid account hfind
    have hchanged : Exact { (s.accounts.find uuid).getD {} with toSession := session } :=
      hexact.congr rfl rfl
    exact h.put hchanged _ _
  | clear uuid =>
    rw [step]
    split
    · exact h
    · exact h.put ((exact_init _).congr rfl rfl) _ _

/-- What a release of the leases of a principal does to an account: its leases are gone, and all others
are there as they were. -/
def Released (type id : List Char) (before after : AccountState) : Prop :=
  ∀ type' id' viewId chatId key, leaseKey type' id' viewId chatId = some key →
    after.interests.find key = if type' = type ∧ id' = id then none else before.interests.find key

theorem released_releaseWhere {type id : List Char} (htype : ':' ∉ type) (hid : ':' ∉ id)
    (account : AccountState) : Released type id account (account.releaseWhere (ofPrincipal type id)) := by
  intro type' id' viewId chatId key hkey
  have hprincipal := (keyed_of_leaseKey hkey).ofPrincipal_iff htype hid
  unfold AccountState.releaseWhere
  rw [find_filter]
  cases hfind : account.interests.find key with
  | none => simp
  | some lease =>
    rw [Option.filter_some]
    split_ifs with hkept hsame hsame
    · rw [(hprincipal lease).mpr ⟨hsame.1.symm, hsame.2.symm⟩] at hkept
      cases hkept
    · rfl
    · rfl
    · have hother : ofPrincipal type id (key, lease) = true := by simpa using hkept
      exact absurd ((hprincipal lease).mp hother) fun h => hsame ⟨h.1.symm, h.2.symm⟩

/-- **Interests are counted exactly.** In every run the count of a chat is the number of its leases, an
account has at most 20 leases and at most 4 of a principal, every lease is under a key of its chat, and a
release takes the leases of its principal on every account and no others. -/
theorem exact_of_run (events : List Event) :
    let s := events.foldl step {}
    (∀ uuid account, s.accounts.find uuid = some account → Exact account) ∧
      ∀ type id, type ∈ ["device".toList, "api_client".toList, "maintenance".toList, "owner".toList] →
        validUuid id = true → ∀ uuid,
          match s.accounts.find uuid, (step s (.releaseInterests type id)).accounts.find uuid with
          | some before, some after => Released type id before after
          | none, none => True
          | _, _ => False := by
  intro s
  have hsound : Sound s := by
    induction events using List.reverseRecOn with
    | nil => exact nofun
    | append_singleton events event ih =>
      change Sound ((events ++ [event]).foldl step {})
      rw [List.foldl_concat]
      exact sound_step ih event
  refine ⟨hsound, fun type id htype hid uuid => ?_⟩
  have hcolon : ':' ∉ type := by
    simp only [List.mem_cons, List.not_mem_nil, or_false] at htype
    rcases htype with rfl | rfl | rfl | rfl <;> decide
  have hafter : (step s (.releaseInterests type id)).accounts.find uuid =
      (s.accounts.find uuid).map fun account => account.releaseWhere (ofPrincipal type id) := by
    rw [step, if_pos ⟨htype, hid⟩]
    exact OrderedMap.find_map _ _
  rw [hafter]
  cases s.accounts.find uuid with
  | none => trivial
  | some account => exact released_releaseWhere hcolon (colon_of_validUuid hid) account

end Runtime.Interests
