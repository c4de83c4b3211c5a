import TeleBezel.Api.SendCall

/-!
# The send events of a poll

`TelegramReadService::updates` of `backend-api/app`, from the answer of the runtime on, with
`MessageSendService::known` and `observe` and `MessageSendRepository::many`. The events are values of
the runtime that nothing has checked. An event whose names are not strings, and an outcome that the
table refuses, throw; what was recorded before stays.
-/

open List

namespace Api

/-- The strings that `Str::isUuid` accepts with what the database reads of them, and how it writes
a uuid. -/
structure UuidText where
  read : String → Option Uuid
  write : Uuid → String
  read_write : ∀ uuid, read (write uuid) = some uuid

/-- The names of `EVENT_TYPES`. -/
inductive EventGroup
  | chat
  | message
  | send
  | connection

def eventTypes : EventGroup → List String
  | .chat => ["chat_changed"]
  | .message => ["message_changed", "message_deleted"]
  | .send => ["send_changed"]
  | .connection => ["connection_changed"]

/-- `$wanted`. -/
def wanted (types : Option (List EventGroup)) : List String :=
  (types.getD [.chat, .message, .send, .connection]).flatMap eventTypes

abbrev Entries := List (ArrayKey × Value)

def textOf (event : Entries) (name : String) : Option String :=
  match entry event name with
  | some (.str text) => some text
  | _ => none

def isSend (event : Entries) : Bool := textOf event "type" = some "send_changed"

/-- The operation that a send event names. An event without one has no entry in `$owned`: the empty
string is no uuid. -/
def operationId (event : Entries) : Option String :=
  if isSend event then textOf event "operation_id" else none

/-- `$raw`. -/
def raw (items : List Value) : List Entries :=
  items.filterMap fun
    | .array entries => some entries
    | _ => none

/-- `Values::object` takes the event. -/
def named (event : Entries) : Bool := event.all fun entry => entry.1 matches .str _

section Poll

variable (text : UuidText) (now : ℕ)

/-- `many`, as the function from the ids that its array has for keys. -/
def many (rows : List MessageSend) (accountId : Uuid) (ids : List String) (id : String) :
    Option MessageSend :=
  (rows.filter fun row => row.accountId = accountId ∧ some row.id ∈ ids.map text.read).find?
    fun row => text.write row.id = id

/-- `record` can write what it makes of a row. What it leaves alone is not written. -/
def writable (row : MessageSend) (outcome : Outcome) : Bool :=
  recorded now row outcome = row || storable (recorded now row outcome)

/-- `record`, or none where the table refuses the row. -/
def record (rows : List MessageSend) (id : Uuid) (outcome : Outcome) : Option (List MessageSend) :=
  if rows.all fun row => row.id ≠ id || writable now row outcome then
    some (rows.map fun row => if row.id = id then recorded now row outcome else row)
  else none

def observe (rows : List MessageSend) (event : Entries) : Option (List MessageSend) :=
  match (textOf event "operation_id").bind text.read with
  | none => some rows
  | some id => record now rows id (outcome (operationOf event))

/-- One turn of the loop: the rows, and whether it comes to the look at the type; none where it
throws. -/
def visit (owned : String → Option MessageSend) (principal : Uuid) (rows : List MessageSend)
    (event : Entries) : Option (List MessageSend × Bool) :=
  if ¬ named event then none
  else if ¬ isSend event then some (rows, true)
  else match (operationId event).bind owned with
    | none => some (rows, false)
    | some send =>
      (observe text now rows event).map fun rows => (rows, send.tokenId = principal)

def poll (owned : String → Option MessageSend) (principal : Uuid) (wanted : List String) :
    List MessageSend → List Entries → List MessageSend × Option (List Entries)
  | rows, [] => (rows, some [])
  | rows, event :: rest =>
    match visit text now owned principal rows event with
    | none => (rows, none)
    | some (rows, visible) =>
      let (rows, events) := poll owned principal wanted rows rest
      (rows, events.map fun events =>
        if visible ∧ (textOf event "type").any (· ∈ wanted) then event :: events else events)

/-- `updates`, from the answer of the runtime on. -/
def updates (rows : List MessageSend) (accountId principal : Uuid) (types : Option (List EventGroup))
    (items : List Value) : List MessageSend × Option (List Entries) :=
  poll text now (many text rows accountId ((raw items).filterMap operationId)) principal
    (wanted types) rows (raw items)

/-! ## What is asked of a poll -/

def sendOf (rows : List MessageSend) (accountId : Uuid) (id : String) : Option MessageSend :=
  rows.find? fun row => row.accountId = accountId ∧ text.write row.id = id

def Owned (rows : List MessageSend) (accountId principal : Uuid) (event : Entries) : Prop :=
  ∃ id send, operationId event = some id ∧ sendOf text rows accountId id = some send ∧
    send.tokenId = principal

def concerns (rows : List MessageSend) (accountId principal : Uuid) (event : Entries) : Bool :=
  ¬ isSend event ||
    ((operationId event).bind (sendOf text rows accountId)).any fun send => send.tokenId = principal

def outcomesOf (owned : String → Option MessageSend) (events : List Entries) (row : MessageSend) :
    List Outcome :=
  events.filterMap fun event =>
    if operationId event = some (text.write row.id) ∧ (owned (text.write row.id)).isSome then
      some (outcome (operationOf event))
    else none

def Writable : MessageSend → List Outcome → Prop
  | _, [] => True
  | row, outcome :: rest => writable now row outcome = true ∧ Writable (recorded now row outcome) rest

instance instDecidableWritable : (row : MessageSend) → (outcomes : List Outcome)
    → Decidable (Writable now row outcomes)
  | _, [] => isTrue trivial
  | row, outcome :: rest =>
    have : Decidable (Writable now (recorded now row outcome) rest) := instDecidableWritable _ rest
    inferInstanceAs (Decidable (_ ∧ _))

/-- **Nothing throws**: the names of all events are strings, and the table takes every outcome of an
operation of the account. -/
def Accepted (rows : List MessageSend) (accountId : Uuid) (items : List Value) : Prop :=
  (∀ event ∈ raw items, named event = true) ∧
  ∀ row ∈ rows, Writable now row (outcomesOf text (sendOf text rows accountId) (raw items) row)

instance (rows : List MessageSend) (accountId : Uuid) (items : List Value) :
    Decidable (Accepted text now rows accountId items) := inferInstanceAs (Decidable (_ ∧ _))

/-- **Send events are seen only by their owner and recorded for everyone**: of two polls whose items
differ only in the sends of others. -/
def KeptApart (rows : List MessageSend) (accountId principal : Uuid)
    (types : Option (List EventGroup)) (items items' : List Value) : Prop :=
  (∀ event ∈ (updates text now rows accountId principal types items).2.getD [],
    isSend event = true → Owned text rows accountId principal event) ∧
  (updates text now rows accountId principal types items).2 =
    (updates text now rows accountId principal types items').2 ∧
  (∀ principal' types', (updates text now rows accountId principal types items).1 =
    (updates text now rows accountId principal' types' items).1) ∧
  (Accepted text now rows accountId items →
    (updates text now rows accountId principal types items).1 = rows.map fun row =>
      (outcomesOf text (sendOf text rows accountId) (raw items) row).foldl (recorded now) row)

end Poll

/-! ## One turn -/

variable {text : UuidText} {now : ℕ} {rows : List MessageSend} {accountId principal : Uuid}
  {owned : String → Option MessageSend} {event : Entries} {events : List Entries}

theorem sendOf_eq_some {id : String} {send : MessageSend}
    (h : sendOf text rows accountId id = some send) :
    text.write send.id = id ∧ text.read id = some send.id := by
  have hfound := List.find?_some h
  simp only [decide_eq_true_eq] at hfound
  exact ⟨hfound.2, hfound.2 ▸ text.read_write send.id⟩

theorem many_eq {ids : List String} {id : String} (h : id ∈ ids) :
    many text rows accountId ids id = sendOf text rows accountId id := by
  rw [many, sendOf, List.find?_filter]
  congr 1
  ext1 row
  rw [Bool.eq_iff_iff]
  simp only [Bool.decide_and, Bool.and_eq_true, decide_eq_true_eq]
  constructor
  · rintro ⟨⟨haccount, -⟩, hid⟩
    exact ⟨haccount, hid⟩
  · rintro ⟨haccount, rfl⟩
    exact ⟨⟨haccount, mem_map.mpr ⟨_, h, text.read_write row.id⟩⟩, rfl⟩

theorem poll_congr {owned' : String → Option MessageSend} {wanted : List String}
    (h : ∀ event ∈ events, ∀ id ∈ operationId event, owned id = owned' id) :
    poll text now owned principal wanted rows events =
      poll text now owned' principal wanted rows events := by
  induction events generalizing rows with
  | nil => rfl
  | cons event rest ih =>
    have hbind : (operationId event).bind owned = (operationId event).bind owned' :=
      Option.bind_congr fun id hid => h event (by simp) id hid
    simp only [poll, visit, hbind]
    split
    · rfl
    · rw [ih fun event hevent => h event (mem_cons_of_mem _ hevent)]

theorem updates_eq (types : Option (List EventGroup)) (items : List Value) :
    updates text now rows accountId principal types items =
      poll text now (sendOf text rows accountId) principal (wanted types) rows (raw items) :=
  poll_congr fun event hevent _ hid =>
    many_eq (mem_filterMap.mpr ⟨event, hevent, hid⟩)

/-! ## The loop -/

def Reads (text : UuidText) (owned : String → Option MessageSend) : Prop :=
  ∀ id send, owned id = some send → text.write send.id = id

def visible (owned : String → Option MessageSend) (principal : Uuid) (event : Entries) : Bool :=
  ¬ isSend event || ((operationId event).bind owned).any fun send => send.tokenId = principal

def observed (text : UuidText) (now : ℕ) (owned : String → Option MessageSend) (event : Entries)
    (row : MessageSend) : MessageSend :=
  (outcomesOf text owned [event] row).foldl (recorded now) row

@[simp]
theorem observed_id (row : MessageSend) : (observed text now owned event row).id = row.id := by
  unfold observed
  generalize outcomesOf text owned [event] row = outcomes
  induction outcomes generalizing row with
  | nil => rfl
  | cons outcome rest ih => exact (ih _).trans (recorded_identity now row outcome).1

theorem outcomesOf_cons (row : MessageSend) :
    outcomesOf text owned (event :: events) row =
      outcomesOf text owned [event] row ++ outcomesOf text owned events row := by
  rw [outcomesOf, outcomesOf, outcomesOf, ← filterMap_append]
  rfl

theorem outcomesOf_congr {row row' : MessageSend} (h : row.id = row'.id) :
    outcomesOf text owned events row = outcomesOf text owned events row' := by
  simp only [outcomesOf, h]

theorem writable_append {row : MessageSend} {first rest : List Outcome} :
    Writable now row (first ++ rest) ↔
      Writable now row first ∧ Writable now (first.foldl (recorded now) row) rest := by
  induction first generalizing row with
  | nil => simp [Writable]
  | cons outcome first ih => simp [Writable, ih, and_assoc]

/-- **One turn** throws exactly when the names of the event are not strings or the table refuses the
outcome, and records the outcome in the row of its operation. -/
theorem visit_eq (howned : Reads text owned) :
    visit text now owned principal rows event =
      if named event ∧ ∀ row ∈ rows, Writable now row (outcomesOf text owned [event] row) then
        some (rows.map (observed text now owned event), visible owned principal event)
      else none := by
  unfold visit
  by_cases hnamed : named event = true
  · simp only [hnamed, not_true_eq_false, if_false, true_and]
    -- an event with no outcome changes nothing
    have hnone : (∀ row, outcomesOf text owned [event] row = []) →
        (if ∀ row ∈ rows, Writable now row (outcomesOf text owned [event] row) then
          some (rows.map (observed text now owned event), visible owned principal event)
        else none) = some (rows, visible owned principal event) := by
      intro h
      have hid : observed text now owned event = id := by
        ext1 row
        simp [observed, h]
      simp [h, hid, Writable]
    by_cases hsend : isSend event = true
    · simp only [hsend, not_true_eq_false, if_false]
      cases hfound : (operationId event).bind owned with
      | none =>
        rw [hnone fun row => ?_]
        · simp [visible, hsend, hfound]
        · have hskip : ¬ (operationId event = some (text.write row.id) ∧
              (owned (text.write row.id)).isSome) := by
            rintro ⟨hid, hsome⟩
            simp [hid] at hfound
            simp [hfound] at hsome
          simp [outcomesOf, hskip]
      | some send =>
        obtain ⟨id, hid, hsend'⟩ := Option.bind_eq_some_iff.mp hfound
        have hwrite := howned id send hsend'
        have htext : textOf event "operation_id" = some id := by
          simpa [operationId, hsend] using hid
        have hread : text.read id = some send.id := hwrite ▸ text.read_write send.id
        -- the operation is that of the rows with the id, and of no others
        have houtcomes : ∀ row : MessageSend, outcomesOf text owned [event] row =
            if row.id = send.id then [outcome (operationOf event)] else [] := by
          intro row
          by_cases hrow : row.id = send.id
          · simp [outcomesOf, hid, hrow, hwrite, hsend']
          · have hother : text.write row.id ≠ id := by
              intro heq
              have hsame := text.read_write row.id
              rw [heq, hread] at hsame
              exact hrow (Option.some.inj hsame).symm
            simp [outcomesOf, hid, hrow, Ne.symm hother]
        have hwritable : (∀ row ∈ rows, Writable now row (outcomesOf text owned [event] row)) ↔
            (rows.all fun row => row.id ≠ send.id || writable now row (outcome (operationOf event)))
              = true := by
          rw [all_eq_true]
          refine forall₂_congr fun row _ => ?_
          rw [houtcomes row]
          by_cases hrow : row.id = send.id <;> simp [hrow, Writable]
        have hobserved : rows.map (observed text now owned event) = rows.map fun row =>
            if row.id = send.id then recorded now row (outcome (operationOf event)) else row := by
          refine map_congr_left fun row _ => ?_
          rw [observed, houtcomes row]
          split <;> rfl
        have hvisible : visible owned principal event = decide (send.tokenId = principal) := by
          simp [visible, hsend, hfound]
        simp only [observe, htext, Option.bind_some, hread, record, hwritable, hobserved, hvisible]
        split <;> rfl
    · rw [hnone fun row => by simp [outcomesOf, operationId, hsend]]
      simp [hsend, visible]
  · simp [hnamed]

def Fine (text : UuidText) (now : ℕ) (owned : String → Option MessageSend) (rows : List MessageSend)
    (events : List Entries) : Prop :=
  (∀ event ∈ events, named event = true) ∧
  ∀ row ∈ rows, Writable now row (outcomesOf text owned events row)

theorem fine_cons :
    Fine text now owned rows (event :: events) ↔
      (named event = true ∧ ∀ row ∈ rows, Writable now row (outcomesOf text owned [event] row)) ∧
      Fine text now owned (rows.map (observed text now owned event)) events := by
  have hrow : ∀ row, Writable now row (outcomesOf text owned (event :: events) row) ↔
      Writable now row (outcomesOf text owned [event] row) ∧
      Writable now (observed text now owned event row)
        (outcomesOf text owned events (observed text now owned event row)) := by
    intro row
    rw [outcomesOf_cons, writable_append, @outcomesOf_congr text owned events _ row (observed_id row)]
    rfl
  simp only [Fine, forall_mem_cons, hrow, forall_mem_map]
  constructor
  · rintro ⟨⟨hnamed, hrest⟩, hrows⟩
    exact ⟨⟨hnamed, fun row hmem => (hrows row hmem).1⟩, hrest, fun row hmem => (hrows row hmem).2⟩
  · rintro ⟨⟨hnamed, hfirst⟩, hrest, hrows⟩
    exact ⟨⟨hnamed, hrest⟩, fun row hmem => ⟨hfirst row hmem, hrows row hmem⟩⟩

theorem poll_rows (howned : Reads text owned) (principal principal' : Uuid)
    (wanted wanted' : List String) :
    (poll text now owned principal wanted rows events).1 =
      (poll text now owned principal' wanted' rows events).1 := by
  induction events generalizing rows with
  | nil => rfl
  | cons event rest ih =>
    simp only [poll, visit_eq howned]
    split_ifs
    · exact ih
    · rfl

/-- **A poll in which nothing throws** records every outcome and returns what is visible and
wanted. -/
theorem poll_eq (howned : Reads text owned) {wanted : List String}
    (h : Fine text now owned rows events) :
    poll text now owned principal wanted rows events =
      (rows.map fun row => (outcomesOf text owned events row).foldl (recorded now) row,
        some (events.filter fun event => visible owned principal event &&
          (textOf event "type").any (· ∈ wanted))) := by
  induction events generalizing rows with
  | nil => simp [poll, outcomesOf]
  | cons event rest ih =>
    obtain ⟨hfirst, hrest⟩ := fine_cons.mp h
    simp only [poll, visit_eq howned, if_pos hfirst, ih hrest, map_map, Prod.mk.injEq]
    constructor
    · refine map_congr_left fun row _ => ?_
      rw [Function.comp_apply, @outcomesOf_congr text owned rest _ row (observed_id row),
        outcomesOf_cons, foldl_append]
      rfl
    · simp only [Option.map_some, filter_cons, Bool.and_eq_true]

theorem poll_of_not_fine (howned : Reads text owned) {wanted : List String}
    (h : ¬ Fine text now owned rows events) :
    (poll text now owned principal wanted rows events).2 = none := by
  induction events generalizing rows with
  | nil => exact absurd ⟨by simp, by simp [outcomesOf, Writable]⟩ h
  | cons event rest ih =>
    simp only [poll, visit_eq howned]
    split_ifs with hfirst
    · have hrest : ¬ Fine text now owned (rows.map (observed text now owned event)) rest :=
        fun hrest => h (fine_cons.mpr ⟨hfirst, hrest⟩)
      simp [ih hrest]
    · rfl

/-! ## The poll -/

theorem reads_sendOf : Reads text (sendOf text rows accountId) :=
  fun _ _ h => (sendOf_eq_some h).1

theorem filter_concerns (items : List Value) (wanted : List String) :
    ((raw items).filter fun event => visible (sendOf text rows accountId) principal event &&
        (textOf event "type").any (· ∈ wanted)) =
      ((raw items).filter (concerns text rows accountId principal)).filter
        fun event => (textOf event "type").any (· ∈ wanted) := by
  rw [filter_filter]
  refine filter_congr fun event _ => ?_
  rw [Bool.and_comm]
  rfl

/-- **Send events are kept apart** exactly when both polls throw or neither does. -/
theorem keptApart_iff (text : UuidText) (now : ℕ) (rows : List MessageSend)
    (accountId principal : Uuid) (types : Option (List EventGroup)) (items items' : List Value)
    (hsame : (raw items).filter (concerns text rows accountId principal) =
      (raw items').filter (concerns text rows accountId principal)) :
    KeptApart text now rows accountId principal types items items' ↔
      (Accepted text now rows accountId items ↔ Accepted text now rows accountId items') := by
  have hreads : Reads text (sendOf text rows accountId) := reads_sendOf
  have haccepted : ∀ items, Accepted text now rows accountId items →
      updates text now rows accountId principal types items = _ := fun items h =>
    (updates_eq types items).trans (poll_eq hreads h)
  have hrefused : ∀ items, ¬ Accepted text now rows accountId items →
      (updates text now rows accountId principal types items).2 = none := fun items h => by
    rw [updates_eq]
    exact poll_of_not_fine hreads h
  constructor
  · rintro ⟨-, hevents, -, -⟩
    by_cases h : Accepted text now rows accountId items <;>
      by_cases h' : Accepted text now rows accountId items'
    · exact iff_of_true h h'
    · rw [haccepted items h, hrefused items' h'] at hevents
      cases hevents
    · rw [hrefused items h, haccepted items' h'] at hevents
      cases hevents
    · exact iff_of_false h h'
  · intro hiff
    refine ⟨?_, ?_, fun principal' types' => ?_, fun h => by rw [haccepted items h]⟩
    · intro event hevent hsend
      by_cases h : Accepted text now rows accountId items
      · rw [haccepted items h] at hevent
        have hvisible := List.of_mem_filter hevent
        simp only [visible, hsend, Bool.and_eq_true] at hvisible
        obtain ⟨hfound, -⟩ := hvisible
        cases hid : operationId event with
        | none => simp [hid] at hfound
        | some id =>
          cases hrow : sendOf text rows accountId id with
          | none => simp [hid, hrow] at hfound
          | some send => exact ⟨id, send, hid, hrow, by simpa [hid, hrow] using hfound⟩
      · simp [hrefused items h] at hevent
    · by_cases h : Accepted text now rows accountId items
      · rw [haccepted items h, haccepted items' (hiff.mp h)]
        simp only [filter_concerns, hsame]
      · rw [hrefused items h, hrefused items' (h ∘ hiff.mpr)]
    · rw [updates_eq, updates_eq]
      exact poll_rows hreads _ _ _ _

/-! ### A send that another token made -/

def sampleUuids : UuidText where
  read id :=
    if "00000000-0000-4000-8000-00000000000".toList <+: id.toList then
      some (Nat.ofDigitChars 10 (id.toList.drop 35) 0)
    else none
  write uuid := "00000000-0000-4000-8000-00000000000" ++ uuid.repr
  read_write uuid := by simp [Nat.ofDigitChars_toDigits]

def pendingSend (id tokenId : Uuid) : MessageSend where
  instanceId := 1
  tokenId
  accountId := 7
  storageGeneration := 3
  authorizationGeneration := 1
  chatId := "42"
  replyTo := none
  keyHash := [id]
  requestHmac := [id]
  id
  state := .pending
  updatedAt := 0

def sendEvent (id : String) (fields : Entries) : Value :=
  .array ([(.str "type", .str "send_changed"), (.str "operation_id", .str id)] ++ fields)

def sentEvent : Value :=
  sendEvent "00000000-0000-4000-8000-000000000002"
    [(.str "state", .str "sent"), (.str "message_id", .str "900")]

/-- The send of another token does not concern the poll. -/
theorem keptApart_sent :
    KeptApart sampleUuids 5 [pendingSend 1 10, pendingSend 2 11] 7 10 none [sentEvent] [] :=
  (keptApart_iff sampleUuids 5 [pendingSend 1 10, pendingSend 2 11] 7 10 none [sentEvent] []
    rfl).mpr (iff_of_true (by decide +kernel) (by decide +kernel))

/-- The send of another token is sent, but its message is not named: the poll throws. -/
theorem unnamed_message :
    let others := [sendEvent "00000000-0000-4000-8000-000000000002" [(.str "state", .str "sent")]]
    let rows := [pendingSend 1 10, pendingSend 2 11]
    (raw others).filter (concerns sampleUuids rows 7 10) =
        (raw []).filter (concerns sampleUuids rows 7 10) ∧
      ¬ KeptApart sampleUuids 5 rows 7 10 none others [] := by
  refine ⟨rfl, fun h => ?_⟩
  exact absurd (congrArg Option.isSome h.2.1) (by decide +kernel)

end Api
