import Mathlib.Data.PNat.Basic
import TeleBezel.Lib.Keyset
import TeleBezel.Runtime.ChatOrder
import TeleBezel.Runtime.ReadFence

/-!
# Pages of chats

`ReadModelService::chats` of `backend-tdlib/src/chat_reads.cpp`: a call is a row of critical sections,
between which TDLib is asked to load chats and updates come in. Each call of a chain takes the cursor
of the answer before it.
-/

open List

namespace Runtime

open Transition

structure ChatCursor where
  generation : ℕ
  authorization : ℕ
  epoch : ℕ
  list : ChatList
  version : ℕ
  expires : ℕ
  order : ℤ
  id : ℤ

def ChatCursor.key (cursor : ChatCursor) : ℤ ×ₗ ℤ := toLex (cursor.order, cursor.id)

structure ChatItem where
  id : ℤ
  order : ℤ
deriving DecidableEq

def ChatItem.key (item : ChatItem) : ℤ ×ₗ ℤ := toLex (item.order, item.id)

/-- What a call answers. The last field only tells which chats had stayed where they were since the
first answer of the chain. -/
structure Page where
  items : List ChatItem
  partialAnswer : Bool
  exhausted : Bool
  hasMore : Option Bool
  nextCursor : Option ChatCursor
  steady : ℤ → Bool

structure ChatsCall where
  fence : ReadFence
  limit : ℕ+
  cursor : Option ChatCursor

inductive CallPhase
  | opened
  | attempting (attempt : ℕ)
  | loading (attempt : ℕ)
  | leaving (loadFailed : Bool)
  | answering (page : Page)

/-- What TDLib answers to `loadChats`. -/
inductive LoadResponse
  | loaded
  /-- 404, all chats are loaded. -/
  | notFound
  | failed

structure ChatsState where
  fence : FenceState := {}
  orders : ChatOrders := {}
  exhausted : ChatList → Bool := fun _ => false

namespace ChatsState

variable (s : ChatsState) (list : ChatList)

def items : List ChatItem :=
  s.orders.chats.entries.filterMap fun chat =>
    (chat.2 list.td).map fun position => ⟨chat.1, position.order⟩

variable (call : ChatsCall)

def check : Bool :=
  s.fence.valid call.fence && call.cursor.all fun cursor =>
    !(s.orders.logs list).disturbed cursor.version cursor.order

def available : ℕ :=
  ((s.items list).filter fun item => call.cursor.all fun cursor => decide (item.key < cursor.key)).length

def behind : List ChatItem :=
  Keyset.below ChatItem.key (call.cursor.map ChatCursor.key)
    (Keyset.descending ChatItem.key (s.items list))

def page (loadFailed : Bool) (now : ℕ) (steady : ℤ → Bool) : Page :=
  let items := s.behind list call
  let exhausted := s.exhausted list
  let truncated := decide ((call.limit : ℕ) < items.length)
  { items := items.take call.limit
    partialAnswer := loadFailed || !truncated && !exhausted && decide (items.length < call.limit)
    exhausted
    hasMore := if truncated then some true else if exhausted then some false else none
    nextCursor := items[(call.limit : ℕ) - 1]?.bind fun last =>
      if truncated then
        some
          { generation := call.fence.generation
            authorization := call.fence.authorizationGeneration
            epoch := call.fence.epoch
            list
            version := (s.orders.logs list).version
            expires := now + 900
            order := last.order
            id := last.id }
      else none
    steady }

end ChatsState

/-- A chain of calls on one list: the account, the call under way, what was answered, and the error
that has ended the chain. The last field only tells which chats have stayed where they were since the
first answer was taken. -/
structure Chain where
  state : ChatsState := {}
  list : ChatList
  call : Option (ChatsCall × CallPhase) := none
  pages : List Page := []
  failed : Option ReadError := none
  steady : Option (ℤ → Bool) := none

/-- All that can happen: the updates of TDLib, resets of the session, changes of what fences reads,
another call that finds a list loaded, and the calls of the chain. -/
inductive ChatsEvent
  | update (update : ChatUpdate)
  | reset
  | elsewhere (fence : FenceState)
  | exhausted (list : ChatList)
  | call (limit : ℕ+) (now : ℕ)
  | proceed (timeUp late : Bool) (response : LoadResponse) (now : ℕ)

namespace Chain

variable (c : Chain)

def cursor : Option ChatCursor := c.pages.getLast?.bind (·.nextCursor)

def items : List ChatItem := c.pages.flatMap (·.items)

def usable (fence : ReadFence) (list : ChatList) (now : ℕ) (cursor : ChatCursor) : Bool :=
  cursor.generation = fence.generation && cursor.epoch = fence.epoch && cursor.list = list &&
    cursor.authorization = fence.authorizationGeneration && now ≤ cursor.expires

def begin (limit : ℕ+) (now : ℕ) : Chain :=
  if c.call.isSome || c.failed.isSome || !c.pages.isEmpty && c.cursor.isNone then c
  else
    match c.state.fence.readFence with
    | none => { c with failed := some .invalidState }
    | some fence =>
      if c.cursor.all (usable fence c.list now) then
        { c with call := some (⟨fence, limit, c.cursor⟩, .opened) }
      else { c with failed := some .cursorUnusable }

def fail : Chain := { c with call := none, failed := some .resyncRequired }

def goto (call : ChatsCall) (phase : CallPhase) : Chain := { c with call := some (call, phase) }

def proceed (timeUp late : Bool) (response : LoadResponse) (now : ℕ) : Chain :=
  match c.call with
  | none => c
  | some (call, .opened) =>
    if call.cursor.isNone || c.state.check c.list call then c.goto call (.attempting 0) else c.fail
  | some (call, .attempting attempt) =>
    if 8 ≤ attempt || timeUp then c.goto call (.leaving false)
    else if !c.state.check c.list call then c.fail
    else if (call.limit : ℕ) < c.state.available c.list call || c.state.exhausted c.list then
      c.goto call (.leaving false)
    else if late then c.goto call (.leaving true)
    else c.goto call (.loading attempt)
  | some (call, .loading attempt) =>
    match response with
    | .loaded => c.goto call (.attempting (attempt + 1))
    | .failed => c.goto call (.leaving true)
    | .notFound =>
      { c.goto call (.leaving false) with
        state :=
          if c.state.fence.valid call.fence then
            { c.state with exhausted := Function.update c.state.exhausted c.list true }
          else c.state }
  | some (call, .leaving loadFailed) =>
    if c.state.check c.list call then
      let steady := c.steady.getD fun id => (c.state.orders.orderIn c.list id).isSome
      { c.goto call (.answering (c.state.page c.list call loadFailed now steady)) with
        steady := some steady }
    else c.fail
  | some (call, .answering page) =>
    if c.state.check c.list call then { c with call := none, pages := c.pages ++ [page] } else c.fail

def change (state : ChatsState) : Chain :=
  { c with
    state
    steady := c.steady.map fun steady id => steady id &&
      decide (state.orders.orderIn c.list id = c.state.orders.orderIn c.list id) }

def step : ChatsEvent → Chain
  | .update update => c.change { c.state with orders := c.state.orders.handle update }
  | .reset => c.change { c.state with orders := c.state.orders.reset, exhausted := fun _ => false }
  | .elsewhere fence => c.change { c.state with fence }
  | .exhausted list =>
    c.change { c.state with exhausted := Function.update c.state.exhausted list true }
  | .call limit now => c.begin limit now
  | .proceed timeUp late response now => c.proceed timeUp late response now

end Chain

section Items

variable {s : ChatsState} {list : ChatList} {call : ChatsCall}

theorem mem_items (s : ChatsState) (list : ChatList) (item : ChatItem) :
    item ∈ s.items list ↔ s.orders.orderIn list item.id = some item.order := by
  rw [ChatsState.items, mem_filterMap, ChatOrders.orderIn, Option.bind_eq_some_iff]
  constructor
  · rintro ⟨⟨id, positions⟩, hentry, hitem⟩
    obtain ⟨position, hposition, rfl⟩ := Option.map_eq_some_iff.1 hitem
    exact ⟨positions, AList.mem_lookup_iff.2 hentry, Option.map_eq_some_iff.2 ⟨position, hposition, rfl⟩⟩
  · rintro ⟨positions, hlookup, hitem⟩
    obtain ⟨position, hposition, horder⟩ := Option.map_eq_some_iff.1 hitem
    refine ⟨⟨item.id, positions⟩, AList.mem_lookup_iff.1 hlookup, ?_⟩
    refine Option.map_eq_some_iff.2 ⟨position, hposition, ?_⟩
    rw [horder]

theorem nodup_items (s : ChatsState) (list : ChatList) : ((s.items list).map (·.id)).Nodup := by
  have hkeys : s.orders.chats.entries.keys.Nodup := s.orders.chats.nodupKeys
  refine hkeys.sublist ?_
  rw [ChatsState.items]
  induction s.orders.chats.entries with
  | nil => exact List.Sublist.refl []
  | cons chat chats ih =>
    rw [keys_cons]
    cases h : chat.2 list.td with
    | none => rw [filterMap_cons, h]; exact ih.cons _
    | some position => rw [filterMap_cons, h]; exact ih.cons_cons _

theorem key_inj :
    ∀ a ∈ s.items list, ∀ b ∈ s.items list, a.key = b.key → a = b := by
  intro a _ b _ hkey
  have hpair : (a.order, a.id) = (b.order, b.id) := toLex_inj.1 hkey
  cases a
  cases b
  simp_all

section

variable (s : ChatsState) (list : ChatList) (call : ChatsCall)

theorem mem_behind (item : ChatItem) :
    item ∈ s.behind list call ↔ s.orders.orderIn list item.id = some item.order ∧
      ∀ cursor ∈ call.cursor, item.key < cursor.key := by
  rw [ChatsState.behind, Keyset.mem_below (Keyset.pairwise_descending _ _),
    (Keyset.descending_perm _ _).mem_iff, mem_items]
  simp

theorem nodup_behind :
    ((s.behind list call).map (·.id)).Nodup := by
  have hperm := (Keyset.descending_perm ChatItem.key (s.items list)).map (·.id)
  refine (hperm.nodup_iff.2 (nodup_items s list)).sublist ?_
  exact (Keyset.below_sublist _ _).map _

theorem pairwise_behind :
    (s.behind list call).Pairwise fun a b => b.key < a.key :=
  Keyset.pairwise_lt key_inj (nodup_items s list).of_map _

end

theorem nextCursor_page {loadFailed : Bool} {now : ℕ} {steady : ℤ → Bool} {cursor : ChatCursor}
    (h : (s.page list call loadFailed now steady).nextCursor = some cursor) :
    ∃ hlimit : (call.limit : ℕ) < (s.behind list call).length,
      cursor.key = (s.behind list call)[(call.limit : ℕ) - 1].key ∧
        cursor.version = (s.orders.logs list).version := by
  simp only [ChatsState.page, Option.bind_eq_some_iff, decide_eq_true_eq] at h
  obtain ⟨last, hlast, h⟩ := h
  split_ifs at h with hlimit
  injection h with h
  subst h
  refine ⟨hlimit, ?_, rfl⟩
  rw [List.getElem?_eq_getElem (by omega)] at hlast
  injection hlast with hlast
  rw [hlast]
  rfl

theorem nextCursor_page_none {loadFailed : Bool} {now : ℕ} {steady : ℤ → Bool}
    (h : (s.page list call loadFailed now steady).nextCursor = none) :
    (s.behind list call).take call.limit = s.behind list call := by
  by_contra hne
  have hlimit : (call.limit : ℕ) < (s.behind list call).length := by
    by_contra hle
    exact hne (take_of_length_le (not_lt.1 hle))
  have hpos := call.limit.pos
  simp only [ChatsState.page, Option.bind_eq_none_iff, decide_eq_true_eq] at h
  have := h _ (List.getElem?_eq_getElem (by omega))
  rw [if_pos hlimit] at this
  exact absurd this (by simp)

end Items

namespace Chain

/-- What the answers of a chain are: no chat twice; while there is a cursor, all of them at or above it
and where they were, unless it is disturbed, and the chats that stay answered or below it; at the end,
all chats that stayed answered. -/
structure Good (list : ChatList) (orders : ChatOrders) (steady : ℤ → Prop) (pages : List Page) :
    Prop where
  nodup : ((pages.flatMap (·.items)).map (·.id)).Nodup
  version : ∀ last ∈ pages.getLast?, ∀ cursor ∈ last.nextCursor,
    cursor.version ≤ (orders.logs list).version
  above : ∀ last ∈ pages.getLast?, ∀ cursor ∈ last.nextCursor,
    ∀ item ∈ pages.flatMap (·.items), cursor.key ≤ item.key
  placed : ∀ last ∈ pages.getLast?, ∀ cursor ∈ last.nextCursor,
    ∀ item ∈ pages.flatMap (·.items), orders.orderIn list item.id = some item.order ∨
      (orders.logs list).disturbed cursor.version cursor.order = true
  rest : ∀ last ∈ pages.getLast?, ∀ cursor ∈ last.nextCursor, ∀ id, steady id →
    id ∈ (pages.flatMap (·.items)).map (·.id) ∨
      ∃ order, orders.orderIn list id = some order ∧ toLex (order, id) < cursor.key
  done : ∀ last ∈ pages.getLast?, last.nextCursor = none → ∀ id, last.steady id = true →
    id ∈ (pages.flatMap (·.items)).map (·.id)

variable {list : ChatList} {orders orders' : ChatOrders} {steady steady' : ℤ → Prop}
  {pages : List Page}

theorem good_nil (list : ChatList) (orders : ChatOrders) (steady : ℤ → Prop) :
    Good list orders steady [] where
  nodup := nodup_nil
  version := nofun
  above := nofun
  placed := nofun
  rest := nofun
  done := nofun

theorem order_le_of_key_le {cursor : ChatCursor} {item : ChatItem} (h : cursor.key ≤ item.key) :
    cursor.order ≤ item.order := by
  rcases Prod.Lex.le_iff.1 h with hlt | ⟨heq, -⟩
  · exact hlt.le
  · exact heq.le

theorem Good.onward (h : Good list orders steady pages) (hordered : (orders.logs list).Ordered)
    (honward : ChatOrders.Onward list orders orders')
    (hsteady : ∀ id, steady' id → steady id ∧ orders'.orderIn list id = orders.orderIn list id) :
    Good list orders' steady' pages where
  nodup := h.nodup
  version last hlast cursor hcursor := (h.version last hlast cursor hcursor).trans honward.version
  above := h.above
  placed := by
    intro last hlast cursor hcursor item hitem
    have hversion := h.version last hlast cursor hcursor
    have hkey := h.above last hlast cursor hcursor item hitem
    rcases h.placed last hlast cursor hcursor item hitem with horder | hdisturbed
    · exact honward.stays item.id item.order cursor.version cursor.order horder
        (order_le_of_key_le hkey) hversion
    · exact Or.inr (honward.disturbed _ _ hordered hversion hdisturbed)
  rest := by
    intro last hlast cursor hcursor id hid
    obtain ⟨hid, horder⟩ := hsteady id hid
    rw [horder]
    exact h.rest last hlast cursor hcursor id hid
  done := h.done

variable {s : ChatsState} {call : ChatsCall}

section

variable (h : Good list s.orders steady pages) (hcursor : call.cursor = pages.getLast?.bind
  (·.nextCursor)) (hmore : pages = [] ∨ call.cursor.isSome)
include h hcursor hmore

theorem Good.unmoved (hcheck : s.check list call = true) :
    ∀ item ∈ pages.flatMap (·.items), s.orders.orderIn list item.id = some item.order ∧
      ∀ cursor ∈ call.cursor, cursor.key ≤ item.key := by
  intro item hitem
  rcases hmore with rfl | hsome
  · exact absurd hitem not_mem_nil
  · obtain ⟨cursor, hcursor'⟩ := Option.isSome_iff_exists.1 hsome
    have hlast := hcursor
    rw [hcursor', eq_comm, Option.bind_eq_some_iff] at hlast
    obtain ⟨last, hlast, hnext⟩ := hlast
    have habove := h.above last hlast cursor hnext item hitem
    have hclear : (s.orders.logs list).disturbed cursor.version cursor.order = false := by
      have := (Bool.and_eq_true_iff.1 hcheck).2
      rw [hcursor'] at this
      simpa using this
    refine ⟨?_, fun cursor' h' => ?_⟩
    · rcases h.placed last hlast cursor hnext item hitem with horder | hdisturbed
      · exact horder
      · rw [hclear] at hdisturbed
        exact absurd hdisturbed (by decide)
    · rw [hcursor'] at h'
      injection h' with h'
      rw [← h']
      exact habove

theorem Good.behind (hfirst : pages = [] → ∀ id, steady id → (s.orders.orderIn list id).isSome)
    {id : ℤ} (hid : steady id) :
    id ∈ (pages.flatMap (·.items)).map (·.id) ∨ ∃ item ∈ s.behind list call, item.id = id := by
  rcases hmore with rfl | hsome
  · obtain ⟨order, horder⟩ := Option.isSome_iff_exists.1 (hfirst rfl id hid)
    have hnone : call.cursor = none := hcursor
    refine Or.inr ⟨⟨id, order⟩, (mem_behind ..).2 ⟨horder, ?_⟩, rfl⟩
    rw [hnone]
    nofun
  · obtain ⟨cursor, hcursor'⟩ := Option.isSome_iff_exists.1 hsome
    have hlast := hcursor
    rw [hcursor', eq_comm, Option.bind_eq_some_iff] at hlast
    obtain ⟨last, hlast, hnext⟩ := hlast
    refine (h.rest last hlast cursor hnext id hid).imp_right ?_
    rintro ⟨order, horder, hkey⟩
    refine ⟨⟨id, order⟩, (mem_behind ..).2 ⟨horder, fun cursor' h' => ?_⟩, rfl⟩
    rw [hcursor'] at h'
    injection h' with h'
    rw [← h']
    exact hkey

end

theorem Good.take {kept : ℤ → Bool} (h : Good list s.orders (fun id => kept id = true) pages)
    (hcursor : call.cursor = pages.getLast?.bind (·.nextCursor))
    (hmore : pages = [] ∨ call.cursor.isSome) (hcheck : s.check list call = true)
    (hfirst : pages = [] → ∀ id, kept id = true → (s.orders.orderIn list id).isSome)
    (loadFailed : Bool) (now : ℕ) :
    Good list s.orders (fun id => kept id = true)
      (pages ++ [s.page list call loadFailed now kept]) := by
  have hunmoved := h.unmoved hcursor hmore hcheck
  have hitems : (pages ++ [s.page list call loadFailed now kept]).flatMap (·.items) =
      pages.flatMap (·.items) ++ (s.behind list call).take call.limit := by
    rw [flatMap_append, flatMap_singleton]
    rfl
  have hpage : ∀ item ∈ (s.behind list call).take call.limit,
      s.orders.orderIn list item.id = some item.order ∧
        ∀ cursor ∈ call.cursor, item.key < cursor.key :=
    fun item hitem => (mem_behind ..).1 (mem_of_mem_take hitem)
  have hlast : (pages ++ [s.page list call loadFailed now kept]).getLast? =
      some (s.page list call loadFailed now kept) := List.getLast?_concat
  -- a chat at the place where it was is not behind the cursor
  have hdisjoint : ∀ item ∈ pages.flatMap (·.items),
      ∀ item' ∈ (s.behind list call).take call.limit, item.id ≠ item'.id := by
    intro item hitem item' hitem' heq
    obtain ⟨horder, habove⟩ := hunmoved item hitem
    obtain ⟨horder', hbelow⟩ := hpage item' hitem'
    rw [heq, horder'] at horder
    injection horder with horder
    have hkey : item.key = item'.key := by rw [ChatItem.key, ChatItem.key, heq, horder]
    rcases hmore with rfl | hsome
    · exact absurd hitem not_mem_nil
    · obtain ⟨cursor, hcursor'⟩ := Option.isSome_iff_exists.1 hsome
      have hle := habove cursor hcursor'
      rw [hkey] at hle
      exact absurd hle (not_le.2 (hbelow cursor hcursor'))
  have hpairwise := pairwise_behind s list call
  have hpos := call.limit.pos
  constructor
  · rw [hitems, map_append, nodup_append]
    refine ⟨h.nodup, (nodup_behind s list call).sublist ((take_sublist _ _).map _), ?_⟩
    intro id hid id' hid'
    obtain ⟨item, hitem, rfl⟩ := mem_map.1 hid
    obtain ⟨item', hitem', rfl⟩ := mem_map.1 hid'
    exact hdisjoint item hitem item' hitem'
  · intro last hlast' cursor hnext
    rw [hlast] at hlast'
    injection hlast' with hlast'
    subst hlast'
    obtain ⟨-, -, hversion⟩ := nextCursor_page hnext
    exact hversion.le
  · intro last hlast' cursor hnext item hitem
    rw [hlast] at hlast'
    injection hlast' with hlast'
    subst hlast'
    obtain ⟨hlimit, hkey, -⟩ := nextCursor_page hnext
    rw [hitems, mem_append] at hitem
    rw [hkey]
    rcases hitem with hitem | hitem
    · -- what was answered before is at or above the cursor of the call, and the page below it
      have hmem := getElem_mem (by omega : (call.limit : ℕ) - 1 < (s.behind list call).length)
      obtain ⟨-, hbelow⟩ := (mem_behind ..).1 hmem
      obtain ⟨-, habove⟩ := hunmoved item hitem
      rcases hmore with rfl | hsome
      · exact absurd hitem not_mem_nil
      · obtain ⟨cursor', hcursor'⟩ := Option.isSome_iff_exists.1 hsome
        exact (hbelow cursor' hcursor').le.trans (habove cursor' hcursor')
    · exact (Keyset.mem_take_iff hpairwise hlimit hpos item (mem_of_mem_take hitem)).1 hitem
  · intro last hlast' cursor hnext item hitem
    rw [hitems, mem_append] at hitem
    rcases hitem with hitem | hitem
    · exact Or.inl (hunmoved item hitem).1
    · exact Or.inl (hpage item hitem).1
  · intro last hlast' cursor hnext id hid
    rw [hlast] at hlast'
    injection hlast' with hlast'
    subst hlast'
    obtain ⟨hlimit, hkey, -⟩ := nextCursor_page hnext
    rw [hitems, map_append, mem_append]
    rcases h.behind hcursor hmore hfirst hid with hanswered | ⟨item, hitem, rfl⟩
    · exact Or.inl (Or.inl hanswered)
    · by_cases htaken : item ∈ (s.behind list call).take call.limit
      · exact Or.inl (Or.inr (mem_map_of_mem htaken))
      · -- the page ended above it
        right
        refine ⟨item.order, ((mem_behind ..).1 hitem).1, ?_⟩
        rw [hkey]
        exact not_le.1 fun hle =>
          htaken ((Keyset.mem_take_iff hpairwise hlimit hpos item hitem).2 hle)
  · intro last hlast' hnext id hid
    rw [hlast] at hlast'
    injection hlast' with hlast'
    subst hlast'
    have hall := nextCursor_page_none hnext
    rw [hitems, map_append, mem_append, hall]
    rcases h.behind hcursor hmore hfirst hid with hanswered | ⟨item, hitem, rfl⟩
    · exact Or.inl hanswered
    · exact Or.inr (mem_map_of_mem hitem)

def CallGoes (c : Chain) : ChatsCall × CallPhase → Prop
  | (call, phase) =>
    (call.cursor = c.cursor ∧ (c.pages = [] ∨ call.cursor.isSome)) ∧
      match phase with
      | .answering page =>
        c.steady.isSome ∧
          Good c.list c.state.orders (fun id => ∃ kept ∈ c.steady, kept id = true) (c.pages ++ [page])
      | _ => c.pages = [] → c.steady = none

structure Inv (c : Chain) : Prop where
  ordered : (c.state.orders.logs c.list).Ordered
  good : Good c.list c.state.orders (fun id => ∃ kept ∈ c.steady, kept id = true) c.pages
  call : ∀ call ∈ c.call, CallGoes c call
  steady : c.pages ≠ [] → c.steady.isSome
  fresh : c.call = none → c.failed = none → c.pages = [] → c.steady = none

variable {c : Chain}

theorem inv_start (list : ChatList) : Inv { list } where
  ordered := ChatOrderLog.ordered_empty
  good := good_nil ..
  call := nofun
  steady h := absurd rfl h
  fresh _ _ _ := rfl

theorem Inv.change (h : Inv c) {state : ChatsState}
    (honward : ChatOrders.Onward c.list c.state.orders state.orders) : Inv (c.change state) := by
  have hsteady : ∀ id, (∃ kept ∈ (c.change state).steady, kept id = true) →
      (∃ kept ∈ c.steady, kept id = true) ∧
        state.orders.orderIn c.list id = c.state.orders.orderIn c.list id := by
    rintro id ⟨kept', hkept', hid⟩
    obtain ⟨kept, hkept, rfl⟩ := Option.map_eq_some_iff.1 hkept'
    rw [Bool.and_eq_true, decide_eq_true_eq] at hid
    exact ⟨⟨kept, hkept, hid.1⟩, hid.2⟩
  constructor
  · exact honward.ordered h.ordered
  · exact h.good.onward h.ordered honward hsteady
  · rintro ⟨call, phase⟩ hcall
    obtain ⟨hcursor, hphase⟩ := h.call _ hcall
    refine ⟨hcursor, ?_⟩
    cases phase with
    | answering page =>
      refine ⟨?_, hphase.2.onward h.ordered honward hsteady⟩
      rw [Chain.change, Option.isSome_map]
      exact hphase.1
    | opened | attempting attempt | loading attempt | leaving loadFailed =>
      exact fun hpages => by rw [Chain.change, hphase hpages]; rfl
  · intro hpages
    rw [Chain.change, Option.isSome_map]
    exact h.steady hpages
  · intro hcall hfailed hpages
    rw [Chain.change, h.fresh hcall hfailed hpages]
    rfl

theorem Inv.fail (h : Inv c) : Inv c.fail where
  ordered := h.ordered
  good := h.good
  call := nofun
  steady := h.steady
  fresh _ hfailed := nomatch hfailed

theorem Inv.goto (h : Inv c) {phase : CallPhase}
    (hphase : CallGoes c (call, phase)) : Inv (c.goto call phase) where
  ordered := h.ordered
  good := h.good
  call call' hcall' := by
    injection hcall' with hcall'
    rw [← hcall']
    exact hphase
  steady := h.steady
  fresh hnone := nomatch hnone

theorem Inv.begin (h : Inv c) (limit : ℕ+) (now : ℕ) : Inv (c.begin limit now) := by
  rw [Chain.begin]
  split_ifs with hguard
  · exact h
  · simp only [Bool.or_eq_true, Bool.and_eq_true, not_or, Bool.not_eq_true, Option.isSome_eq_false_iff,
      Option.isNone_iff_eq_none, Bool.not_eq_true'] at hguard
    obtain ⟨⟨hcall, hfailed⟩, hmore⟩ := hguard
    cases hfence : c.state.fence.readFence with
    | none =>
      exact
        { ordered := h.ordered
          good := h.good
          call := h.call
          steady := h.steady
          fresh := fun _ hfailed' => nomatch hfailed' }
    | some fence =>
      simp only []
      split_ifs
      · refine h.goto ⟨⟨rfl, ?_⟩, h.fresh hcall hfailed⟩
        by_cases hpages : c.pages = []
        · exact Or.inl hpages
        · right
          rw [Option.isSome_iff_ne_none]
          exact fun hnone => hmore ⟨by simpa using hpages, hnone⟩
      · exact
          { ordered := h.ordered
            good := h.good
            call := h.call
            steady := h.steady
            fresh := fun _ hfailed' => nomatch hfailed' }

theorem Inv.take (h : Inv c)
    (hcursor : call.cursor = c.cursor ∧ (c.pages = [] ∨ call.cursor.isSome))
    (hfirst : c.pages = [] → c.steady = none) (hcheck : c.state.check c.list call = true)
    (loadFailed : Bool) (now : ℕ) :
    let kept := c.steady.getD fun id => (c.state.orders.orderIn c.list id).isSome
    Inv { c.goto call (.answering (c.state.page c.list call loadFailed now kept)) with
      steady := some kept } := by
  intro kept
  have hsteady : (fun id => ∃ kept' ∈ some kept, kept' id = true) = fun id => kept id = true := by
    funext id
    simp
  -- what stayed until now, or all of the list at the first page
  have hgood : Good c.list c.state.orders (fun id => kept id = true) c.pages := by
    by_cases hpages : c.pages = []
    · rw [hpages]
      exact good_nil ..
    · obtain ⟨kept', hkept'⟩ := Option.isSome_iff_exists.1 (h.steady hpages)
      have hkept : kept = kept' := by simp only [kept, hkept', Option.getD_some]
      have := h.good
      rw [hkept'] at this
      rw [hkept]
      simpa using this
  have hlist : c.pages = [] → ∀ id, kept id = true →
      (c.state.orders.orderIn c.list id).isSome := by
    intro hpages id hid
    simpa only [kept, hfirst hpages, Option.getD_none] using hid
  constructor
  · exact h.ordered
  · exact hsteady ▸ hgood
  · intro call' hcall'
    injection hcall' with hcall'
    rw [← hcall']
    refine ⟨hcursor, rfl, ?_⟩
    exact hsteady ▸ hgood.take hcursor.1 hcursor.2 hcheck hlist loadFailed now
  · exact fun _ => rfl
  · exact fun hnone => nomatch hnone

theorem Inv.proceed (h : Inv c) (timeUp late : Bool) (response : LoadResponse) (now : ℕ) :
    Inv (c.proceed timeUp late response now) := by
  rw [Chain.proceed]
  cases hcall : c.call with
  | none => exact h
  | some under =>
    obtain ⟨call, phase⟩ := under
    obtain ⟨hcursor, hphase⟩ := h.call _ hcall
    cases phase with
    | opened =>
      simp only []
      split_ifs
      · exact h.goto ⟨hcursor, hphase⟩
      · exact h.fail
    | attempting attempt =>
      simp only []
      split_ifs
      · exact h.goto ⟨hcursor, hphase⟩
      · exact h.fail
      · exact h.goto ⟨hcursor, hphase⟩
      · exact h.goto ⟨hcursor, hphase⟩
      · exact h.goto ⟨hcursor, hphase⟩
    | loading attempt =>
      cases response with
      | loaded | failed => exact h.goto ⟨hcursor, hphase⟩
      | notFound =>
        -- the orders are as before
        have horders : (if c.state.fence.valid call.fence then
            { c.state with exhausted := Function.update c.state.exhausted c.list true }
          else c.state).orders = c.state.orders := by
          split_ifs <;> rfl
        constructor
        · exact (congrArg (fun orders => (orders.logs c.list).Ordered) horders).mpr h.ordered
        · exact (congrArg (fun orders => Good c.list orders _ c.pages) horders).mpr h.good
        · intro call' hcall'
          injection hcall' with hcall'
          rw [← hcall']
          exact ⟨hcursor, hphase⟩
        · exact h.steady
        · exact fun hnone => nomatch hnone
    | leaving loadFailed =>
      simp only []
      split_ifs with hcheck
      · exact h.take hcursor hphase hcheck loadFailed now
      · exact h.fail
    | answering page =>
      simp only []
      split_ifs with hcheck
      · exact
          { ordered := h.ordered
            good := hphase.2
            call := nofun
            steady := fun _ => hphase.1
            fresh := fun _ _ hpages => absurd hpages (by simp) }
      · exact h.fail

theorem Inv.step (h : Inv c) (event : ChatsEvent) : Inv (c.step event) := by
  cases event with
  | update update => exact h.change (ChatOrders.onward_handle ..)
  | reset => exact h.change (ChatOrders.onward_reset ..)
  | elsewhere fence | exhausted list => exact h.change (ChatOrders.Onward.refl ..)
  | call limit now => exact h.begin limit now
  | proceed timeUp late response now => exact h.proceed timeUp late response now

theorem inv_of_run {events : List ChatsEvent}
    (hrun : Run (fun c e c' => step c e = c') { list } events c) : Inv c :=
  hrun.invariant Inv
    (fun c event c' (h : Inv c) (hstep : c.step event = c') => by rw [← hstep]; exact h.step event)
    (inv_start list)

theorem Inv.check_eq_false (h : Inv c) {cursor : ChatCursor} (hcursor : c.cursor = some cursor)
    {item : ChatItem} (hitem : item ∈ c.items)
    (hmoved : c.state.orders.orderIn c.list item.id ≠ some item.order)
    (hcall : call.cursor = some cursor) : c.state.check c.list call = false := by
  obtain ⟨last, hlast, hnext⟩ := Option.bind_eq_some_iff.1 hcursor
  have hdisturbed := (h.good.placed last hlast cursor hnext item hitem).resolve_left hmoved
  rw [ChatsState.check, hcall]
  simp [hdisturbed]

end Chain

/-- **Pages of chats.** In every run of a chain of calls, whatever else happens to the account between
their sections: no chat is answered twice; once the last answer has no cursor, every chat of the list at
the first answer that has stayed where it was until the last one is answered exactly once; and a chat
that was answered and has moved makes the next section of a call that goes on with the chain end it with
`sync.resync_required`. -/
theorem pages_of_run {list : ChatList} {events : List ChatsEvent} {c : Chain}
    (hrun : Run (fun c e c' => Chain.step c e = c') { list } events c) :
    (c.items.map (·.id)).Nodup ∧
      (∀ last ∈ c.pages.getLast?, last.nextCursor = none → ∀ id, last.steady id = true →
        (c.items.map (·.id)).count id = 1) ∧
      ∀ cursor, c.cursor = some cursor →
        ∀ item ∈ c.items, c.state.orders.orderIn c.list item.id ≠ some item.order →
          ∀ call, call.cursor = some cursor →
            c.state.check c.list call = false ∧
              ∀ phase, phase = .opened ∨ (∃ loadFailed, phase = .leaving loadFailed) ∨
                  (∃ page, phase = .answering page) →
                ∀ timeUp late response now,
                  ((c.goto call phase).proceed timeUp late response now).failed =
                    some .resyncRequired := by
  have hinv := Chain.inv_of_run hrun
  refine ⟨hinv.good.nodup, ?_, ?_⟩
  · intro last hlast hnext id hid
    exact List.count_eq_one_of_mem hinv.good.nodup (hinv.good.done last hlast hnext id hid)
  · intro cursor hcursor item hitem hmoved call hcall
    have hcheck := hinv.check_eq_false hcursor hitem hmoved hcall
    refine ⟨hcheck, ?_⟩
    rintro phase (rfl | ⟨loadFailed, rfl⟩ | ⟨page, rfl⟩) timeUp late response now
    · change (if (call.cursor.isNone || c.state.check c.list call) = true then _ else _ : Chain).failed = _
      rw [if_neg (by simp [hcall, hcheck])]
      rfl
    · change (if c.state.check c.list call = true then _ else _ : Chain).failed = _
      rw [if_neg (by simp [hcheck])]
      rfl
    · change (if c.state.check c.list call = true then _ else _ : Chain).failed = _
      rw [if_neg (by simp [hcheck])]
      rfl

def twoPages : List ChatsEvent :=
  let proceed := ChatsEvent.proceed false false .loaded 0
  [.elsewhere { readable := true, client := 1 }, .update (.newChat 1 [some ⟨.main, 20, false⟩]),
    .update (.newChat 2 [some ⟨.main, 10, false⟩]), .exhausted .main,
    .call 1 0, proceed, proceed, proceed, proceed,
    .call 1 0, proceed, proceed, proceed, proceed]

theorem pages_of_run_two :
    let c := twoPages.foldl Chain.step { list := .main }
    (c.items.map (·.id)) = [1, 2] ∧ (c.items.map (·.id)).count 2 = 1 := by
  intro c
  have hrun : Run (fun c e c' => Chain.step c e = c') { list := .main } twoPages c :=
    (run_function_iff _ _ _ _).mpr rfl
  have hitems : c.items.map (·.id) = [1, 2] := by decide +kernel
  have hlast : c.pages.getLast?.isSome = true := by decide +kernel
  obtain ⟨last, hlast⟩ := Option.isSome_iff_exists.1 hlast
  have hnext : c.pages.getLast?.all fun page => page.nextCursor.isNone && page.steady 2 := by
    decide +kernel
  rw [hlast, Option.all_some, Bool.and_eq_true, Option.isNone_iff_eq_none] at hnext
  exact ⟨hitems, (pages_of_run hrun).2.1 last hlast hnext.1 2 hnext.2⟩

end Runtime
