import Mathlib.Data.List.AList
import Mathlib.Data.Prod.Lex
import TeleBezel.Lib.Transition

/-!
# The order of chats

The chats of an account with their positions in the lists of Telegram, as the updates of TDLib change
them, and the log of where the order of each list changed: `ChatOrderLog` of
`backend-tdlib/include/telebezel/runtime/account_state.hpp`, and `record_order_change` of
`backend-tdlib/src/runtime_support.cpp`. Of a chat only the positions are modelled.
-/

open List

namespace Runtime

inductive TdList
  | main
  | archive
  | other
deriving DecidableEq

inductive ChatList
  | main
  | archive
deriving DecidableEq

def ChatList.td : ChatList → TdList
  | .main => .main
  | .archive => .archive

structure ChatPosition where
  order : ℤ
  isPinned : Bool
deriving DecidableEq

/-- `positions` of the projection of a chat. -/
abbrev Positions := TdList → Option ChatPosition

/-- `chatPosition` of TDLib. -/
structure TdPosition where
  list : TdList
  order : ℤ
  isPinned : Bool

/-- `apply_position`; a position without a list is none. -/
def applyPosition (positions : Positions) : Option TdPosition → Positions
  | none => positions
  | some position =>
    if position.order = 0 then Function.update positions position.list none
    else Function.update positions position.list (some ⟨position.order, position.isPinned⟩)

def applyPositions (positions : List (Option TdPosition)) : Positions :=
  positions.foldl applyPosition fun _ => none

structure ChatOrderLog where
  version : ℕ := 0
  /-- Cursors of a version below it can no longer be judged. -/
  base : ℕ := 0
  entries : List (ℕ × ℤ) := []

namespace ChatOrderLog

def retained : ℕ := 512

def record (log : ChatOrderLog) (order : ℤ) : ChatOrderLog :=
  let version := log.version + 1
  match log.entries ++ [(version, order)] with
  | [] => { log with version }
  | first :: rest =>
    if retained < (first :: rest).length then { version, base := first.1, entries := rest }
    else { log with version, entries := first :: rest }

def reset (log : ChatOrderLog) : ChatOrderLog where
  version := log.version + 1
  base := log.version + 1
  entries := []

def disturbed (log : ChatOrderLog) (since : ℕ) (boundaryOrder : ℤ) : Bool :=
  decide (since < log.base) ||
    log.entries.any fun entry => decide (since < entry.1) && decide (boundaryOrder ≤ entry.2)

end ChatOrderLog

structure ChatOrders where
  chats : AList fun _ : ℤ => Positions := ∅
  logs : ChatList → ChatOrderLog := fun _ => {}

inductive ChatUpdate
  | newChat (id : ℤ) (positions : List (Option TdPosition))
  | position (id : ℤ) (position : Option TdPosition)
  | lastMessage (id : ℤ) (positions : List (Option TdPosition))
  | draftMessage (id : ℤ) (positions : List (Option TdPosition))

namespace ChatOrders

/-- The part of `record_order_change` for one list. -/
def recordIn (previous current : Option ChatPosition) (log : ChatOrderLog) : ChatOrderLog :=
  if previous = current then log
  else log.record (max (max 0 (previous.elim 0 (·.order))) (current.elim 0 (·.order)))

/-- `record_order_change`, with the positions stored. -/
def put (s : ChatOrders) (id : ℤ) (before after : Positions) : ChatOrders where
  chats := s.chats.insert id after
  logs list := recordIn (before list.td) (after list.td) (s.logs list)

/-- The part of `handle_update` for updates that change positions. All but the first are for chats
that are known. -/
def handle (s : ChatOrders) : ChatUpdate → ChatOrders
  | .newChat id positions =>
    s.put id ((s.chats.lookup id).getD fun _ => none) (applyPositions positions)
  | .position id position =>
    match s.chats.lookup id with
    | none => s
    | some before => s.put id before (applyPosition before position)
  | .lastMessage id positions | .draftMessage id positions =>
    match s.chats.lookup id with
    | none => s
    | some before => s.put id before (applyPositions positions)

/-- The part of `reset_session` for chats. -/
def reset (s : ChatOrders) : ChatOrders where
  chats := ∅
  logs list := (s.logs list).reset

def orderIn (s : ChatOrders) (list : ChatList) (id : ℤ) : Option ℤ :=
  (s.chats.lookup id).bind fun positions => (positions list.td).map (·.order)

end ChatOrders

inductive OrderEvent
  | record (order : ℤ)
  | reset

namespace ChatOrderLog

variable {log : ChatOrderLog} {since : ℕ} {boundary order : ℤ}

structure Ordered (log : ChatOrderLog) : Prop where
  sorted : log.entries.Pairwise fun entry entry' => entry.1 < entry'.1
  base : ∀ entry ∈ log.entries, log.base ≤ entry.1
  version : ∀ entry ∈ log.entries, entry.1 ≤ log.version
  bounded : log.base ≤ log.version

theorem ordered_empty : Ordered {} := ⟨List.Pairwise.nil, nofun, nofun, le_rfl⟩

theorem disturbed_iff :
    log.disturbed since boundary = true ↔
      since < log.base ∨ ∃ entry ∈ log.entries, since < entry.1 ∧ boundary ≤ entry.2 := by
  simp [disturbed]

theorem record_cases (log : ChatOrderLog) (order : ℤ) :
    (log.record order).version = log.version + 1 ∧
      (((log.record order).base = log.base ∧
          (log.record order).entries = log.entries ++ [(log.version + 1, order)]) ∨
        ∃ first rest, log.entries = first :: rest ∧ (log.record order).base = first.1 ∧
          (log.record order).entries = rest ++ [(log.version + 1, order)] ∧
            retained ≤ log.entries.length) := by
  rw [record]
  cases hentries : log.entries with
  | nil => exact ⟨rfl, Or.inl ⟨rfl, rfl⟩⟩
  | cons first rest =>
    simp only [cons_append]
    split_ifs with hfull
    · rw [← cons_append, length_append] at hfull
      exact ⟨rfl, Or.inr ⟨first, rest, rfl, rfl, rfl, Nat.le_of_lt_succ hfull⟩⟩
    · exact ⟨rfl, Or.inl ⟨rfl, rfl⟩⟩

theorem Ordered.record (h : log.Ordered) (order : ℤ) : (log.record order).Ordered := by
  obtain ⟨hversion, hcases⟩ := record_cases log order
  have hlast : ∀ entry ∈ log.entries, entry.1 < log.version + 1 :=
    fun entry hentry => Nat.lt_succ_of_le (h.version entry hentry)
  obtain ⟨hbase, hentries⟩ | ⟨first, rest, hfirst, hbase, hentries, -⟩ := hcases
  · constructor
    · rw [hentries, pairwise_append]
      refine ⟨h.sorted, pairwise_singleton _ _, ?_⟩
      intro entry hentry entry' hentry'
      rw [mem_singleton.1 hentry']
      exact hlast entry hentry
    · rw [hentries, hbase]
      intro entry hentry
      rcases mem_append.1 hentry with hentry | hentry
      · exact h.base entry hentry
      · rw [mem_singleton.1 hentry]
        exact Nat.le_succ_of_le h.bounded
    · rw [hentries, hversion]
      intro entry hentry
      rcases mem_append.1 hentry with hentry | hentry
      · exact (hlast entry hentry).le
      · rw [mem_singleton.1 hentry]
    · rw [hbase, hversion]
      exact Nat.le_succ_of_le h.bounded
  · rw [hfirst] at hlast
    have hsorted := h.sorted
    rw [hfirst, pairwise_cons] at hsorted
    have hrest : ∀ entry ∈ rest, entry.1 < log.version + 1 :=
      fun entry hentry => hlast entry (mem_cons_of_mem first hentry)
    have hfirst' := hlast first mem_cons_self
    constructor
    · rw [hentries, pairwise_append]
      refine ⟨hsorted.2, pairwise_singleton _ _, ?_⟩
      intro entry hentry entry' hentry'
      rw [mem_singleton.1 hentry']
      exact hrest entry hentry
    · rw [hentries, hbase]
      intro entry hentry
      rcases mem_append.1 hentry with hentry | hentry
      · exact (hsorted.1 entry hentry).le
      · rw [mem_singleton.1 hentry]
        exact hfirst'.le
    · rw [hentries, hversion]
      intro entry hentry
      rcases mem_append.1 hentry with hentry | hentry
      · exact (hrest entry hentry).le
      · rw [mem_singleton.1 hentry]
    · rw [hbase, hversion]
      exact hfirst'.le

theorem ordered_reset (log : ChatOrderLog) : log.reset.Ordered :=
  ⟨List.Pairwise.nil, nofun, nofun, le_rfl⟩

theorem Ordered.disturbed_record (h : log.Ordered)
    (hdisturbed : log.disturbed since boundary = true) (order : ℤ) :
    (log.record order).disturbed since boundary = true := by
  rw [disturbed_iff] at hdisturbed ⊢
  obtain ⟨-, ⟨hbase, hentries⟩ | ⟨first, rest, hfirst, hbase, hentries, -⟩⟩ := record_cases log order
  · rw [hbase, hentries]
    refine hdisturbed.imp_right ?_
    rintro ⟨entry, hentry, hsince⟩
    exact ⟨entry, mem_append_left _ hentry, hsince⟩
  · -- the entry that left the log is now the base
    rw [hbase, hentries]
    have hle := h.base first (by rw [hfirst]; exact mem_cons_self)
    rcases hdisturbed with hsince | ⟨entry, hentry, hsince⟩
    · exact Or.inl (lt_of_lt_of_le hsince hle)
    · rw [hfirst] at hentry
      rcases mem_cons.1 hentry with rfl | hentry
      · exact Or.inl hsince.1
      · exact Or.inr ⟨entry, mem_append_left _ hentry, hsince⟩

theorem disturbed_record_of_le (hsince : since ≤ log.version) (horder : boundary ≤ order) :
    (log.record order).disturbed since boundary = true := by
  rw [disturbed_iff]
  right
  refine ⟨(log.version + 1, order), ?_, Nat.lt_succ_of_le hsince, horder⟩
  obtain ⟨-, ⟨-, hentries⟩ | ⟨first, rest, -, -, hentries, -⟩⟩ := record_cases log order
  · rw [hentries]
    exact mem_append_right _ (mem_singleton.2 rfl)
  · rw [hentries]
    exact mem_append_right _ (mem_singleton.2 rfl)

theorem disturbed_reset (hsince : since ≤ log.version) : log.reset.disturbed since boundary = true := by
  rw [disturbed_iff]
  exact Or.inl (Nat.lt_succ_of_le hsince)

/-! ### What is known since a version -/

def step (log : ChatOrderLog) : OrderEvent → ChatOrderLog
  | .record order => log.record order
  | .reset => log.reset

def orders (events : List OrderEvent) : List ℤ :=
  events.filterMap fun
    | .record order => some order
    | .reset => none

def laterOrders (log : ChatOrderLog) (since : ℕ) : List ℤ :=
  (log.entries.filter fun entry => since < entry.1).map (·.2)

structure Since (since : ℕ) (events : List OrderEvent) (log : ChatOrderLog) : Prop where
  ordered : log.Ordered
  seen : since ≤ log.version
  later : log.laterOrders since <:+ orders events
  whole : log.base ≤ since → .reset ∉ events ∧ log.laterOrders since = orders events
  forgotten : since < log.base → .reset ∈ events ∨ retained < (orders events).length

theorem since_nil (h : log.Ordered) : Since log.version [] log := by
  have hnone : log.laterOrders log.version = [] := by
    simp only [laterOrders, map_eq_nil_iff, filter_eq_nil_iff, decide_eq_true_eq, not_lt]
    exact h.version
  exact ⟨h, le_rfl, by rw [hnone]; exact nil_suffix, fun _ => ⟨not_mem_nil, hnone⟩,
    fun hbase => absurd h.bounded (Nat.not_le_of_lt hbase)⟩

theorem orders_snoc (events : List OrderEvent) (order : ℤ) :
    orders (events ++ [.record order]) = orders events ++ [order] := by
  simp [orders]

theorem laterOrders_append (log : ChatOrderLog) (order : ℤ) {log' : ChatOrderLog} (h : since ≤ log.version)
    {entries : List (ℕ × ℤ)} (hentries : log'.entries = entries ++ [(log.version + 1, order)]) :
    log'.laterOrders since = ((entries.filter fun entry => since < entry.1).map (·.2)) ++ [order] := by
  have hlater : since < log.version + 1 := Nat.lt_succ_of_le h
  simp [laterOrders, hentries, hlater]

variable {events : List OrderEvent}

theorem Since.record (h : Since since events log) (order : ℤ) :
    Since since (events ++ [.record order]) (log.record order) := by
  have hmem : .reset ∈ events ++ [.record order] ↔ .reset ∈ events := by simp
  have hsnoc : ∀ l, l <:+ orders events → l ++ [order] <:+ orders (events ++ [.record order]) := by
    rintro l ⟨front, hfront⟩
    exact ⟨front, by rw [← append_assoc, hfront, orders_snoc]⟩
  obtain ⟨hversion, hcases⟩ := record_cases log order
  have hseen : since ≤ (log.record order).version := hversion ▸ Nat.le_succ_of_le h.seen
  obtain ⟨hbase, hentries⟩ | ⟨first, rest, hfirst, hbase, hentries, hfull⟩ := hcases
  · have horders : (log.record order).laterOrders since = log.laterOrders since ++ [order] :=
      laterOrders_append log order h.seen hentries
    refine ⟨h.ordered.record order, hseen, ?_, ?_, ?_⟩
    · rw [horders]
      exact hsnoc _ h.later
    · rw [horders, orders_snoc, hbase, hmem, append_left_inj]
      exact h.whole
    · rw [orders_snoc, hbase, hmem, length_append]
      exact fun hsince => (h.forgotten hsince).imp_right (Nat.lt_add_right 1)
  · have horders := laterOrders_append log order h.seen hentries
    by_cases hlater : since < first.1
    · -- what is forgotten is later, and so is all that is kept
      have hsorted := h.ordered.sorted
      rw [hfirst, pairwise_cons] at hsorted
      have hrest : (rest.filter fun entry => since < entry.1) = rest :=
        filter_eq_self.mpr fun entry hentry =>
          decide_eq_true (hlater.trans (hsorted.1 entry hentry))
      have hlast := h.later
      rw [laterOrders, hfirst, filter_cons, if_pos (decide_eq_true hlater), hrest, ← hfirst] at hlast
      have hcount := hlast.length_le
      rw [length_map] at hcount
      refine ⟨h.ordered.record order, hseen, ?_, fun hsince => ?_, fun _ => Or.inr ?_⟩
      · rw [horders]
        rw [hfirst, map_cons] at hlast
        rw [hrest]
        exact hsnoc _ ((suffix_cons _ _).trans hlast)
      · rw [hbase] at hsince
        exact absurd hlater (Nat.not_lt_of_le hsince)
      · rw [orders_snoc, length_append]
        exact Nat.lt_succ_of_le (hfull.trans hcount)
    · have hkeep : log.laterOrders since = (rest.filter fun entry => since < entry.1).map (·.2) := by
        rw [laterOrders, hfirst, filter_cons_of_neg (by simpa using hlater)]
      have hle := h.ordered.base first (hfirst ▸ mem_cons_self)
      have hwhole := h.whole (hle.trans (Nat.le_of_not_lt hlater))
      rw [← hkeep] at horders
      refine ⟨h.ordered.record order, hseen, ?_, fun _ => ?_, fun hsince => ?_⟩
      · rw [horders]
        exact hsnoc _ h.later
      · rw [horders, orders_snoc, hmem, append_left_inj]
        exact hwhole
      · rw [hbase] at hsince
        exact absurd hsince hlater

theorem Since.reset (h : Since since events log) :
    Since since (events ++ [.reset]) log.reset where
  ordered := ordered_reset log
  seen := Nat.le_succ_of_le h.seen
  later := nil_suffix
  whole hbase := absurd h.seen (Nat.not_le_of_lt hbase)
  forgotten _ := Or.inl (mem_append_right _ (mem_singleton.mpr rfl))

theorem Since.run (h : Since since events log) (more : List OrderEvent) :
    Since since (events ++ more) (more.foldl step log) := by
  induction more generalizing events log with
  | nil => rwa [append_nil]
  | cons event more ih =>
    rw [foldl_cons, append_cons]
    cases event with
    | record order => exact ih (h.record order)
    | reset => exact ih h.reset

theorem ordered_run (events : List OrderEvent) : (events.foldl step ({} : ChatOrderLog)).Ordered :=
  ((since_nil ordered_empty).run events).ordered

/-- **The log is sound and exact** for every version seen before: what disturbs a cursor is found, and
nothing else disturbs it but that more than the 512 changes that are kept were made; and of a version that
can be judged no change is forgotten. -/
theorem disturbed_exact (before after : List OrderEvent) (boundary : ℤ) :
    let seen := before.foldl step ({} : ChatOrderLog)
    let log := after.foldl step seen
    (.reset ∈ after ∨ (∃ order ∈ orders after, boundary ≤ order) →
      log.disturbed seen.version boundary = true) ∧
    (log.disturbed seen.version boundary = true →
      .reset ∈ after ∨ (∃ order ∈ orders after, boundary ≤ order) ∨ 512 < (orders after).length) ∧
    (log.base ≤ seen.version → .reset ∉ after ∧ log.laterOrders seen.version = orders after) := by
  intro seen log
  have h : Since seen.version after log := (since_nil (ordered_run before)).run after
  have hfound : (∃ entry ∈ log.entries, seen.version < entry.1 ∧ boundary ≤ entry.2) ↔
      ∃ order ∈ log.laterOrders seen.version, boundary ≤ order := by
    simp only [laterOrders, List.mem_map, List.mem_filter, decide_eq_true_eq]
    constructor
    · rintro ⟨entry, hentry, hlater, horder⟩
      exact ⟨entry.2, ⟨entry, ⟨hentry, hlater⟩, rfl⟩, horder⟩
    · rintro ⟨_, ⟨entry, ⟨hentry, hlater⟩, rfl⟩, horder⟩
      exact ⟨entry, hentry, hlater, horder⟩
  rw [disturbed_iff, hfound]
  refine ⟨fun hchanged => ?_, fun hdisturbed => ?_, h.whole⟩
  · by_cases hbase : seen.version < log.base
    · exact Or.inl hbase
    · obtain ⟨hreset, horders⟩ := h.whole (Nat.le_of_not_lt hbase)
      rw [horders]
      exact Or.inr (hchanged.resolve_left hreset)
  · obtain hbase | ⟨order, horder, hboundary⟩ := hdisturbed
    · exact (h.forgotten hbase).imp_right Or.inr
    · exact Or.inr (Or.inl ⟨order, h.later.subset horder, hboundary⟩)

end ChatOrderLog

namespace ChatOrders

variable {s s' : ChatOrders} {list : ChatList}

/-- How the order of a list goes on: the log keeps its order, its version and what is disturbed, and
a chat stays where it is unless every cursor at or below it is disturbed. -/
structure Onward (list : ChatList) (s s' : ChatOrders) : Prop where
  ordered : (s.logs list).Ordered → (s'.logs list).Ordered
  version : (s.logs list).version ≤ (s'.logs list).version
  disturbed : ∀ since boundary, (s.logs list).Ordered → since ≤ (s.logs list).version →
    (s.logs list).disturbed since boundary = true → (s'.logs list).disturbed since boundary = true
  stays : ∀ id order since boundary, s.orderIn list id = some order → boundary ≤ order →
    since ≤ (s.logs list).version →
      s'.orderIn list id = some order ∨ (s'.logs list).disturbed since boundary = true

theorem Onward.refl (list : ChatList) (s : ChatOrders) : Onward list s s :=
  ⟨id, le_rfl, fun _ _ _ _ h => h, fun _ _ _ _ h _ _ => Or.inl h⟩

theorem orderIn_put (s : ChatOrders) (id : ℤ) (before after : Positions) (other : ℤ) :
    (s.put id before after).orderIn list other =
      if other = id then (after list.td).map (·.order) else s.orderIn list other := by
  rw [orderIn, put]
  by_cases hother : other = id
  · subst hother
    rw [if_pos rfl, AList.lookup_insert, Option.bind_some]
  · rw [if_neg hother, AList.lookup_insert_ne hother, orderIn]

theorem onward_put {id : ℤ} {before after : Positions}
    (hbefore : s.orderIn list id = (before list.td).map (·.order)) :
    Onward list s (s.put id before after) := by
  by_cases hsame : before list.td = after list.td
  · have hlog : (s.put id before after).logs list = s.logs list := if_pos hsame
    refine ⟨by rw [hlog]; exact fun h => h, by rw [hlog], by rw [hlog]; exact fun _ _ _ _ h => h, ?_⟩
    intro other order since boundary horder _ _
    left
    rw [orderIn_put]
    split_ifs with hother
    · rw [← hsame, ← hbefore, ← hother, horder]
    · exact horder
  · have hlog : (s.put id before after).logs list =
        (s.logs list).record (max (max 0 ((before list.td).elim 0 (·.order)))
          ((after list.td).elim 0 (·.order))) := if_neg hsame
    refine ⟨fun h => by rw [hlog]; exact h.record _, ?_, ?_, ?_⟩
    · rw [hlog, (ChatOrderLog.record_cases _ _).1]
      exact Nat.le_succ _
    · intro since boundary hordered _ hdisturbed
      rw [hlog]
      exact hordered.disturbed_record hdisturbed _
    · intro other order since boundary horder hboundary hsince
      by_cases hother : other = id
      · -- the change of the chat is recorded where it was, or higher
        right
        subst hother
        rw [hbefore] at horder
        obtain ⟨position, hposition, rfl⟩ := Option.map_eq_some_iff.1 horder
        rw [hlog]
        refine ChatOrderLog.disturbed_record_of_le hsince ?_
        rw [hposition]
        exact hboundary.trans ((le_max_right 0 position.order).trans (le_max_left _ _))
      · left
        rw [orderIn_put, if_neg hother]
        exact horder

theorem onward_handle (list : ChatList) (s : ChatOrders) (update : ChatUpdate) :
    Onward list s (s.handle update) := by
  cases update with
  | newChat id positions =>
    refine onward_put ?_
    rw [orderIn]
    cases s.chats.lookup id <;> rfl
  | position id position | lastMessage id positions | draftMessage id positions =>
    rw [handle]
    cases hlookup : s.chats.lookup id with
    | none => exact Onward.refl list s
    | some before => exact onward_put (by rw [orderIn, hlookup, Option.bind_some])

theorem onward_reset (list : ChatList) (s : ChatOrders) : Onward list s s.reset where
  ordered _ := ChatOrderLog.ordered_reset _
  version := Nat.le_succ _
  disturbed _ _ _ hsince _ := ChatOrderLog.disturbed_reset hsince
  stays _ _ _ _ _ _ hsince := Or.inr (ChatOrderLog.disturbed_reset hsince)

end ChatOrders

end Runtime
