import TeleBezel.Runtime.Session
import Mathlib.Data.List.Destutter
import Mathlib.Data.List.Sort

/-!
# Pages of the history of a chat

`fetch_history` and `ReadModelService::messages` of `backend-tdlib/src/history_reads.cpp`, for one chat
of an account. TDLib is asked for the messages that it has stored, a few times until the page is full;
then, under the lock, what the journal tells of meanwhile is left out or replaced. A client asks for one
page after the other, each with the cursor of the one before. Names of senders and the refresh of a page
are left out.
-/

open List

namespace Runtime

structure HistoryItem where
  id : ℤ
  projection : ℕ

structure HistoryChange where
  chatId : ℤ
  messageId : ℤ
  /-- It is `message_deleted`. -/
  deleted : Bool

/-! ## TDLib -/

structure MessageStore where
  ids : List ℤ := []
  sorted : ids.Pairwise fun newer older => older < newer := by exact List.Pairwise.nil
  positive : ∀ id ∈ ids, 0 < id := by exact fun _ => nofun

/-- What TDLib answers to `getChatHistory`. -/
inductive HistoryResponse
  | failed
  /-- `messages`, where an entry may be null. -/
  | messages (items : List (Option HistoryItem))

namespace MessageStore

variable (store : MessageStore)

/-- The messages that `getChatHistory` reads from an anchor on. -/
def upTo (anchor : ℤ) : List ℤ :=
  store.ids.filter fun id => anchor = 0 ∨ id ≤ anchor

/-- What TDLib may answer: an error, nothing where nothing is older, or the first of the messages. -/
def Answers (anchor : ℤ) : HistoryResponse → Prop
  | .failed => True
  | .messages [] => ∀ id ∈ store.ids, anchor ≠ 0 ∧ anchor ≤ id
  | .messages items =>
    items.reduceOption.map (·.id) ≠ [] ∧ items.reduceOption.map (·.id) <+: store.upTo anchor

instance (store : MessageStore) (anchor : ℤ) (response : HistoryResponse) :
    Decidable (store.Answers anchor response) :=
  match response with
  | .failed => isTrue trivial
  | .messages [] => inferInstanceAs (Decidable (∀ id ∈ store.ids, anchor ≠ 0 ∧ anchor ≤ id))
  | .messages (item :: items) => inferInstanceAs (Decidable
      ((item :: items).reduceOption.map (·.id) ≠ [] ∧
        (item :: items).reduceOption.map (·.id) <+: store.upTo anchor))

def insert (id : ℤ) : MessageStore :=
  if h : 0 < id then
    { ids := store.ids.filter (fun other => id < other) ++
        id :: store.ids.filter fun other => other < id
      sorted := by
        have hsorted := store.sorted
        refine pairwise_append.mpr ⟨hsorted.filter _, ?_, ?_⟩
        · refine pairwise_cons.mpr ⟨fun other hother => ?_, hsorted.filter _⟩
          simpa using (mem_filter.mp hother).2
        · intro newer hnewer older holder
          have hlt : id < newer := by simpa using (mem_filter.mp hnewer).2
          rcases mem_cons.mp holder with rfl | holder
          · exact hlt
          · have : older < id := by simpa using (mem_filter.mp holder).2
            omega
      positive := by
        intro other hother
        rcases mem_append.mp hother with hnewer | holder
        · exact store.positive other (mem_filter.mp hnewer).1
        · rcases mem_cons.mp holder with rfl | holder
          · exact h
          · exact store.positive other (mem_filter.mp holder).1 }
  else store

theorem mem_insert_of_mem {store : MessageStore} {other : ℤ} (h : other ∈ store.ids) (id : ℤ) :
    other ∈ (store.insert id).ids := by
  unfold insert
  split
  · refine mem_append.mpr ?_
    rcases Int.lt_trichotomy id other with hlt | rfl | hlt
    · exact Or.inl (mem_filter.mpr ⟨h, decide_eq_true hlt⟩)
    · exact Or.inr mem_cons_self
    · exact Or.inr (mem_cons_of_mem _ (mem_filter.mpr ⟨h, decide_eq_true hlt⟩))
  · exact h

def erase (store : MessageStore) (id : ℤ) : MessageStore where
  ids := store.ids.filter fun other => other ≠ id
  sorted := store.sorted.filter _
  positive other hother := store.positive other (mem_filter.mp hother).1

end MessageStore

/-! ## Calls -/

/-- A cursor of `messages` for the chat, with the generation that its signature is for. -/
structure HistoryCursor where
  generation : ℕ
  epoch : ℕ
  authorization : ℕ
  id : ℤ
deriving DecidableEq

def ReadFence.cursor (fence : ReadFence) (id : ℤ) : HistoryCursor where
  generation := fence.generation
  epoch := fence.epoch
  authorization := fence.authorizationGeneration
  id

/-- A call of `messages`, with the page of `fetch_history`. The last four fields only tell what happened:
what TDLib was asked, the messages that it has had stored ever since the call began, those that it had
stored at some time since, and what was journalled since. -/
structure HistoryCall where
  limit : ℕ
  cursor : Option HistoryCursor
  fence : ReadFence
  fetchAnchor : ℤ
  attempt : ℕ := 0
  items : List HistoryItem := []
  seen : List ℤ := []
  failed : Bool := false
  deadline : Bool := false
  exhausted : Bool := false
  /-- The loop was left by a `break`. -/
  left : Bool := false
  requests : List (ℤ × ℕ) := []
  kept : List ℤ := []
  met : List ℤ := []
  told : List HistoryChange := []

def reportedDeleted (chatId : ℤ) (told : List HistoryChange) (id : ℤ) : Bool :=
  match told.reverse.find? fun change => change.chatId = chatId && change.messageId = id with
  | some change => change.deleted
  | none => false

structure HistoryScan where
  items : List HistoryItem
  seen : List ℤ
  oldest : ℤ
  advanced : Bool := false

def HistoryScan.step (anchor : ℤ) (scan : HistoryScan) : Option HistoryItem → HistoryScan
  | none => scan
  | some item =>
    if anchor ≠ 0 ∧ anchor ≤ item.id then scan
    else if item.id ∈ scan.seen then scan
    else
      { items := scan.items ++ [item]
        seen := item.id :: scan.seen
        oldest := if scan.advanced then min scan.oldest item.id else item.id
        advanced := true }

namespace HistoryCall

variable (call : HistoryCall)

def anchor : ℤ := (call.cursor.map (·.id)).getD 0

def goesOn : Bool := call.attempt < 8 && call.items.length < call.limit && !call.left

def requested : ℕ :=
  min 100 (call.limit - call.items.length + if call.fetchAnchor = 0 then 0 else 1)

def scan (items : List (Option HistoryItem)) : HistoryScan :=
  items.foldl (HistoryScan.step call.fetchAnchor) ⟨call.items, call.seen, call.fetchAnchor, false⟩

/-- One turn of the loop of `fetch_history`. -/
def turn (timeUp : Bool) (response : HistoryResponse) : HistoryCall :=
  if timeUp then { call with failed := true, deadline := true, left := true }
  else
    let call :=
      { call with
        attempt := call.attempt + 1
        requests := call.requests ++ [(call.fetchAnchor, call.requested)] }
    match response with
    | .failed => { call with failed := true, left := true }
    | .messages [] => { call with exhausted := true, left := true }
    | .messages items =>
      let scan := call.scan items
      if !scan.advanced then { call with left := true }
      else { call with items := scan.items, seen := scan.seen, fetchAnchor := scan.oldest }

end HistoryCall

/-! ## Pages -/

/-- `changed_since`: the events are looked through from the last one on. -/
def changedSince (journal : Journal HistoryChange) (fence : ReadFence) (chatId id : ℤ) :
    Option HistoryChange :=
  let since := journal.events.reverse.takeWhile fun event => decide (fence.sequence < event.1)
  (since.find? fun event => event.2.chatId = chatId && event.2.messageId = id).map Prod.snd

abbrev MessageMemory := ℤ → Option ℕ

/-- What is made of an item under the lock: it is left out, replaced, or put into memory. -/
def revise (put : HistoryItem → MessageMemory → MessageMemory) (journal : Journal HistoryChange)
    (fence : ReadFence) (chatId : ℤ) (memory : MessageMemory) (item : HistoryItem) :
    Option HistoryItem × MessageMemory :=
  match changedSince journal fence chatId item.id with
  | some change =>
    if change.deleted then (none, memory)
    else
      match memory item.id with
      | some projection => (some { item with projection }, memory)
      | none => (some item, memory)
  | none => (some item, put item memory)

def reviseAll (put : HistoryItem → MessageMemory → MessageMemory) (journal : Journal HistoryChange)
    (fence : ReadFence) (chatId : ℤ) :
    List HistoryItem → MessageMemory → List (Option HistoryItem) × MessageMemory
  | [], memory => ([], memory)
  | item :: items, memory =>
    let (revised, memory) := revise put journal fence chatId memory item
    let (rest, memory) := reviseAll put journal fence chatId items memory
    (revised :: rest, memory)

/-- What `messages` answers. The last five fields only tell of the call: where it began, what TDLib was
asked, what it had stored all the time and at some time, and what was journalled meanwhile. -/
structure HistoryPage where
  items : List HistoryItem
  /-- `partial`. -/
  incomplete : Bool
  hasMore : Option Bool
  localExhausted : Bool
  nextCursor : Option HistoryCursor
  retryCursor : Option HistoryCursor
  fallbackReason : Option String
  limit : ℕ
  anchor : ℤ
  requests : List (ℤ × ℕ)
  kept : List ℤ
  met : List ℤ
  told : List HistoryChange

def HistoryCall.arrange (items : List HistoryItem) : List HistoryItem :=
  (items.mergeSort fun left right => decide (right.id ≤ left.id)).destutter
    fun left right => left.id ≠ right.id

def HistoryCall.page (call : HistoryCall) (revised : List HistoryItem) : HistoryPage :=
  let items := HistoryCall.arrange revised
  let full := call.limit ≤ items.length
  let items := items.take call.limit
  let lastId := (items.getLast?.map (·.id)).getD call.anchor
  let progressed := items ≠ [] ∧ (call.anchor = 0 ∨ lastId < call.anchor)
  let incomplete := call.failed || (!decide full && !call.exhausted)
  { items
    incomplete
    hasMore := if progressed then some true
      else if call.exhausted && !incomplete then some false
      else none
    localExhausted := call.exhausted
    nextCursor := if progressed then some (call.fence.cursor lastId) else none
    retryCursor := if incomplete then some (call.cursor.getD (call.fence.cursor call.anchor)) else none
    fallbackReason := if call.deadline then some "read.deadline"
      else if call.failed then some "read.unavailable"
      else none
    limit := call.limit
    anchor := call.anchor
    requests := call.requests
    kept := call.kept
    met := call.met
    told := call.told }

/-! ## Chains -/

/-- The account, and a client that reads a chat page by page: the cursor that it goes on with, the call
under way, the pages, and the error of the last call. The last field only tells which messages TDLib has
had stored ever since the first call began. -/
structure HistoryReads where
  session : AccountSession HistoryChange := {}
  store : MessageStore := {}
  memory : MessageMemory := fun _ => none
  position : Option HistoryCursor := none
  call : Option HistoryCall := none
  pages : List HistoryPage := []
  failed : Option ReadError := none
  kept : Option (List ℤ) := none

/-- All that can happen: what happens to the account and its journal, to the messages that TDLib has
stored, and to those in memory; and the client calls, the call goes on, and it answers. -/
inductive HistoryEvent
  | session (event : SessionEvent HistoryChange)
  | insert (id : ℤ)
  | vanish (id : ℤ)
  | remember (id : ℤ) (projection : Option ℕ)
  | begin (limit : ℕ)
  | turn (timeUp : Bool) (response : HistoryResponse)
  | answer

namespace HistoryReads

variable (config : Config) (chatId : ℤ) (put : HistoryItem → MessageMemory → MessageMemory)

variable (s : HistoryReads)

def lose (id : ℤ) : HistoryReads :=
  { s with
    call := s.call.map fun call => { call with kept := call.kept.filter fun other => other ≠ id }
    kept := s.kept.map fun kept => kept.filter fun other => other ≠ id }

def tell (change : HistoryChange) : HistoryReads :=
  let s := { s with call := s.call.map fun call => { call with told := call.told ++ [change] } }
  if change.chatId = chatId ∧ change.deleted then
    { s.lose change.messageId with memory := Function.update s.memory change.messageId none }
  else s

def sessionStep (event : SessionEvent HistoryChange) : HistoryReads :=
  let after := { s with session := s.session.step config event }
  match event with
  | .append change => if s.session.engine.world.known then after.tell chatId change else after
  | .engine (.restart _) => { after with call := none }
  | _ => after

def begin (limit : ℕ) : HistoryReads :=
  match s.session.fence.readFence with
  | none => { s with failed := some .invalidState }
  | some fence =>
    let start := fun anchor =>
      { s with
        failed := none
        call := some
          { limit
            cursor := s.position
            fence
            fetchAnchor := anchor
            kept := s.store.ids
            met := s.store.ids }
        kept := some (s.kept.getD s.store.ids) }
    match s.position with
    | none => start 0
    | some cursor =>
      if cursor = fence.cursor cursor.id then start cursor.id
      else { s with failed := some .cursorUnusable }

def answer (call : HistoryCall) : HistoryReads :=
  if s.session.fence.valid call.fence then
    let (revised, memory) :=
      reviseAll put s.session.journal call.fence chatId call.items s.memory
    let page := call.page revised.reduceOption
    { s with
      memory
      call := none
      pages := s.pages ++ [page]
      position := page.nextCursor <|> s.position }
  else { s with call := none, failed := some .resyncRequired }

def step : HistoryEvent → HistoryReads
  | .session event => s.sessionStep config chatId event
  | .insert id =>
    { s with
      store := s.store.insert id
      call := s.call.map fun call => { call with met := (s.store.insert id).ids ++ call.met } }
  | .vanish id => { s.lose id with store := s.store.erase id }
  | .remember id projection => { s with memory := Function.update s.memory id projection }
  | .begin limit => if s.call.isNone then s.begin limit else s
  | .turn timeUp response =>
    match s.call with
    | some call =>
      if call.goesOn ∧ s.store.Answers call.fetchAnchor response then
        { s with call := some (call.turn timeUp response) }
      else s
    | none => s
  | .answer =>
    match s.call with
    | some call => if call.goesOn then s else s.answer chatId put call
    | none => s

/-- No `logout` and no `remove` resets the session inside its epoch after a call was told of a message
that is deleted. -/
def Careful : HistoryEvent → Prop
  | .session (.engine event) => sessionChange config s.session.engine event = .reset →
      ∀ call ∈ s.call, ∀ change ∈ call.told, change.chatId = chatId → change.deleted = false
  | _ => True

instance (s : HistoryReads) (event : HistoryEvent) : Decidable (Careful config chatId s event) :=
  match event with
  | .session (.engine event) =>
    inferInstanceAs (Decidable (sessionChange config s.session.engine event = .reset →
      ∀ call ∈ s.call, ∀ change ∈ call.told, change.chatId = chatId → change.deleted = false))
  | .session (.append _) | .session .beginRead | .session (.updates _ _) | .insert _ | .vanish _
  | .remember _ _ | .begin _ | .turn _ _ | .answer => isTrue trivial

end HistoryReads

end Runtime
