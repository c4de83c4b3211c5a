import TeleBezel.Lib.Journal
import TeleBezel.Runtime.Engine
import TeleBezel.Runtime.ReadFence

/-!
# The journal of updates

`UpdateJournal` of `backend-tdlib/src/update_journal.cpp` numbers what happens to an account, and
`ReadModelService::updates` of `backend-tdlib/src/read_model_service.cpp` answers what came after a
cursor. A cursor is for one epoch. A session that is left gets a new epoch when its journal is cleared;
a `logout` or `remove` that is accepted clears the journal as well, and keeps the epoch. When it fails
before TDLib is asked and the account is reconciled, cursors of before are accepted again, and what they
have not seen is gone without a trace.
-/

open List

namespace Runtime

open Program Transition

def keptEvents : ℕ := 5000

/-- A cursor of `updates`, with the generation that its signature is for. -/
structure UpdatesCursor where
  generation : ℕ
  authorization : ℕ
  epoch : ℕ
  sequence : ℕ
deriving DecidableEq

/-- The runtime with the session of the account. An epoch is a random identifier in the source, here
the next of a count that nothing sets back. The last field only tells which cursors were given out. -/
structure AccountSession (ε : Type) where
  engine : Engine := {}
  epoch : ℕ := 0
  epochs : ℕ := 1
  journal : Journal ε := Journal.empty
  issued : List UpdatesCursor := []

/-- All that can happen: what happens to the runtime, an update that is journalled, a read that begins
(its answer will carry the cursor of that moment), and a call of `updates`. -/
inductive SessionEvent (ε : Type)
  | engine (event : EngineEvent)
  | append (event : ε)
  | beginRead
  | updates (cursor : Option UpdatesCursor) (limit : ℕ)

inductive SessionChange
  | none
  /-- Another account object, or another process. -/
  | fresh
  /-- A new epoch, with the journal of before. -/
  | renew
  /-- `reset_session` in a new epoch. -/
  | leave
  /-- `reset_session` alone. -/
  | reset
deriving DecidableEq

variable {α : Type}

def accepted : Except ErrorCode (Answer ⊕ α) → Bool
  | .ok (.inr _) => true
  | _ => false

/-- The first critical section of a command calls `reset_session`. -/
def Command.resets (config : Config) (s : World) : Command → Bool
  | .logout command => accepted (entering config command (beginLogout command) s).1
  | .remove command => accepted (enterRemove config command s).1
  | _ => false

def leavesSession (client : ClientId) (state : AuthorizationState) (s : World) : Bool :=
  client ∈ s.clients && s.account.authorizationState = .ready && state ≠ .ready

/-- What an event of the runtime does to the session, by what it does to the account. -/
def sessionChange (config : Config) (s : Engine) (event : EngineEvent) : SessionChange :=
  let s' := s.step config event
  match event with
  | .restart _ => .fresh
  | .call command =>
    -- `validated_account` may make the account up
    if !s.world.known && s'.world.known then .fresh
    else if command.resets config s.world then .reset
    else .none
  | .advance _ _ => if s.world.nextClient < s'.world.nextClient then .renew else .none
  | .authorization client state =>
    if state ≠ .closed && leavesSession client state s.world then .leave else .none
  | .closed client _ => if leavesSession client .closed s.world then .leave else .none
  | _ => .none

namespace AccountSession

variable {ε : Type} (s : AccountSession ε)

def fence : FenceState where
  readable := s.engine.world.known && s.engine.world.account.readable
  generation := s.engine.world.account.generation
  epoch := s.epoch
  client := s.engine.world.account.clientId
  authorizationGeneration := s.engine.world.account.authorizationGeneration
  eventSequence := s.journal.sequence
  firstEvent := s.journal.first

def encode (sequence : ℕ) : UpdatesCursor where
  generation := s.engine.world.account.generation
  authorization := s.engine.world.account.authorizationGeneration
  epoch := s.epoch
  sequence

def decode (cursor : UpdatesCursor) : Option ℕ :=
  if cursor = s.encode cursor.sequence then some cursor.sequence else none

def renew : AccountSession ε := { s with epoch := s.epochs, epochs := s.epochs + 1 }

def change : SessionChange → AccountSession ε
  | .none => s
  | .fresh => { s.renew with journal := Journal.empty }
  | .renew => s.renew
  | .leave => { s.renew with journal := s.journal.clear }
  | .reset => { s with journal := s.journal.clear }

end AccountSession

/-- What `updates` answers. -/
structure UpdatesAnswer (ε : Type) where
  items : List (ℕ × ε)
  cursor : UpdatesCursor
  hasMore : Bool

def takeLimit (limit : ℕ) (items : List α) : List α :=
  if limit = 0 then items else items.take limit

namespace AccountSession

variable {ε : Type} (s : AccountSession ε)

/-- The number that a call of `updates` starts from. -/
def startsAt : Option UpdatesCursor → Option ℕ
  | none => some s.journal.sequence
  | some cursor => s.decode cursor

/-- `updates`, when it answers. -/
def updates (cursor : Option UpdatesCursor) (limit : ℕ) : Except ReadError (UpdatesAnswer ε) :=
  if !s.fence.readable then .error .invalidState
  else
    match s.startsAt cursor with
    | none => .error .resyncRequired
    | some sequence =>
      if s.journal.first.any fun first => sequence + 1 < first then .error .resyncRequired
      else
        let items := takeLimit limit (s.journal.after sequence)
        let last := (items.getLast?.map Prod.fst).getD sequence
        .ok { items, cursor := s.encode last, hasMore := last < s.journal.sequence }

def step (config : Config) (s : AccountSession ε) : SessionEvent ε → AccountSession ε
  | .engine event =>
    { s.change (sessionChange config s.engine event) with engine := s.engine.step config event }
  | .append event =>
    if s.engine.world.known then { s with journal := s.journal.append keptEvents event } else s
  | .beginRead =>
    if s.fence.readable then { s with issued := s.encode s.journal.sequence :: s.issued } else s
  | .updates cursor limit =>
    -- cursors are signed: only those that were given out are decoded
    if cursor.all fun cursor => decide (cursor ∈ s.issued) then
      match s.updates cursor limit with
      | .ok answer => { s with issued := answer.cursor :: s.issued }
      | .error _ => s
    else s

/-- `updates` takes the cursor. -/
def Accepts (cursor : UpdatesCursor) : Prop :=
  s.fence.readable = true ∧ s.decode cursor = some cursor.sequence

/-- A `logout` or `remove` is accepted only when every cursor of the epoch is at the end of the
journal. -/
def Careful (config : Config) (s : AccountSession ε) : SessionEvent ε → Prop
  | .engine event => sessionChange config s.engine event = .reset →
      ∀ cursor ∈ s.issued, cursor.epoch = s.epoch → cursor.sequence = s.journal.sequence
  | _ => True

instance (config : Config) (s : AccountSession ε) (event : SessionEvent ε) :
    Decidable (Careful config s event) :=
  match event with
  | .engine event => inferInstanceAs (Decidable (sessionChange config s.engine event = .reset →
      ∀ cursor ∈ s.issued, cursor.epoch = s.epoch → cursor.sequence = s.journal.sequence))
  | .append _ | .beginRead | .updates _ _ => isTrue trivial

end AccountSession

/-- An answer without a gap: the client is to start anew, or it gets the events right after its cursor,
a cursor at the last of them, and some events when there are more. -/
def Gapless {ε : Type} (sequence : ℕ) : Except ReadError (UpdatesAnswer ε) → Prop
  | .error code => code = .resyncRequired
  | .ok answer =>
    answer.items.map Prod.fst = List.range' (sequence + 1) answer.items.length ∧
      answer.cursor.sequence = (answer.items.getLast?.map Prod.fst).getD sequence ∧
      (answer.hasMore = true → answer.items ≠ [])

/-! ## What is answered to a cursor -/

section Answer

variable {ε : Type} {s : AccountSession ε}

theorem takeLimit_eq_nil {limit : ℕ} {items : List α} (h : takeLimit limit items = []) :
    items = [] := by
  unfold takeLimit at h
  split_ifs at h with hlimit
  · exact h
  · rcases take_eq_nil_iff.1 h with hzero | hnil
    · exact absurd hzero hlimit
    · exact hnil

theorem map_takeLimit (hevents : s.journal.events ≠ []) {sequence : ℕ}
    (hfirst : ∀ first ∈ s.journal.first, first ≤ sequence + 1) (limit : ℕ) :
    ∃ count, (takeLimit limit (s.journal.after sequence)).map Prod.fst =
      List.range' (sequence + 1) count := by
  unfold takeLimit
  split_ifs with hlimit
  · exact ⟨_, s.journal.map_after hevents hfirst⟩
  · exact ⟨_, s.journal.take_after hevents hfirst limit⟩

theorem map_eq_range' {items : List (ℕ × α)} {start count : ℕ}
    (h : items.map Prod.fst = List.range' start count) :
    items.map Prod.fst = List.range' start items.length := by
  have hlength : items.length = count := by
    have := congrArg List.length h
    rwa [length_map, length_range'] at this
  rw [h, hlength]

theorem gapless_iff {cursor : UpdatesCursor} (haccepts : s.Accepts cursor)
    (hle : cursor.sequence ≤ s.journal.sequence) (limit : ℕ) :
    Gapless cursor.sequence (s.updates (some cursor) limit) ↔
      s.journal.events ≠ [] ∨ cursor.sequence = s.journal.sequence := by
  obtain ⟨hreadable, hdecode⟩ := haccepts
  have hstarts : s.startsAt (some cursor) = some cursor.sequence := hdecode
  unfold AccountSession.updates
  rw [hreadable, hstarts]
  simp only [Bool.not_true, Bool.false_eq_true, if_false]
  by_cases hevents : s.journal.events = []
  · -- nothing is kept: there are no items, whatever the cursor has seen
    have hfirst : s.journal.first = none := by rw [Journal.first, hevents]; rfl
    have hitems : takeLimit limit (s.journal.after cursor.sequence) = [] := by
      rw [s.journal.after_of_events_eq_nil hevents, takeLimit]
      split_ifs <;> simp
    rw [hfirst, hitems]
    simp only [Option.any_none, Bool.false_eq_true, if_false, Gapless, hevents]
    simp only [AccountSession.encode, map_nil, length_nil, range'_zero, List.getLast?_nil,
      Option.map_none, Option.getD_none, ne_eq, not_true_eq_false, true_and, false_or, imp_false]
    constructor
    · intro hend
      exact le_antisymm hle (not_lt.1 fun hlt => hend (decide_eq_true hlt))
    · intro heq hmore
      exact (of_decide_eq_true hmore).ne heq
  · refine iff_of_true ?_ (Or.inl hevents)
    split_ifs with hbehind
    · exact rfl
    · have hfirst : ∀ first ∈ s.journal.first, first ≤ cursor.sequence + 1 := by
        intro first hfirst
        rw [Option.mem_def.1 hfirst, Option.any_some, decide_eq_true_eq] at hbehind
        omega
      obtain ⟨count, hmap⟩ := map_takeLimit hevents hfirst limit
      refine ⟨map_eq_range' hmap, rfl, fun hmore hnil => ?_⟩
      -- without items the cursor is at the end
      change takeLimit limit (s.journal.after cursor.sequence) = [] at hnil
      have hafter := s.journal.map_after hevents hfirst
      simp only [hnil, List.getLast?_nil, Option.map_none, Option.getD_none, decide_eq_true_eq] at hmore
      rw [takeLimit_eq_nil hnil, map_nil, eq_comm, range'_eq_nil_iff] at hafter
      omega

end Answer

/-! ## Runs -/

namespace AccountSession

variable {ε : Type} {config : Config} {s : AccountSession ε}

/-- Cursors are of epochs that have begun, and not ahead of the journal in their epoch. -/
structure Tracked (s : AccountSession ε) : Prop where
  epoch : s.epoch < s.epochs
  le_epoch : ∀ cursor ∈ s.issued, cursor.epoch ≤ s.epoch
  le_sequence : ∀ cursor ∈ s.issued, cursor.epoch = s.epoch → cursor.sequence ≤ s.journal.sequence

def Settled (s : AccountSession ε) : Prop :=
  s.journal.events = [] →
    ∀ cursor ∈ s.issued, cursor.epoch = s.epoch → cursor.sequence = s.journal.sequence

theorem tracked_start : Tracked ({} : AccountSession ε) where
  epoch := Nat.zero_lt_one
  le_epoch := nofun
  le_sequence := nofun

theorem Tracked.renew (h : Tracked s) (journal : Journal ε) :
    Tracked { s.renew with journal } ∧ Settled { s.renew with journal } := by
  have hnone : ∀ cursor ∈ s.issued, cursor.epoch ≠ s.epochs := fun cursor hcursor =>
    ((h.le_epoch cursor hcursor).trans_lt h.epoch).ne
  refine ⟨⟨Nat.lt_succ_self _, ?_, ?_⟩, ?_⟩
  · exact fun cursor hcursor => (h.le_epoch cursor hcursor).trans h.epoch.le
  · exact fun cursor hcursor heq => absurd heq (hnone cursor hcursor)
  · exact fun _ cursor hcursor heq => absurd heq (hnone cursor hcursor)

theorem Tracked.change (h : Tracked s) (change : SessionChange) : Tracked (s.change change) := by
  cases change with
  | none => exact h
  | fresh => exact (h.renew _).1
  | renew => exact (h.renew s.journal).1
  | leave => exact (h.renew _).1
  | reset => exact ⟨h.epoch, h.le_epoch, h.le_sequence⟩

theorem Tracked.settled_change (h : Tracked s) (hsettled : Settled s) {change : SessionChange}
    (hreset : change = .reset →
      ∀ cursor ∈ s.issued, cursor.epoch = s.epoch → cursor.sequence = s.journal.sequence) :
    Settled (s.change change) := by
  cases change with
  | none => exact hsettled
  | fresh => exact (h.renew _).2
  | renew => exact (h.renew s.journal).2
  | leave => exact (h.renew _).2
  | reset => exact fun _ => hreset rfl

variable {sequence : ℕ}

theorem Tracked.issue (h : Tracked s) (hle : sequence ≤ s.journal.sequence) :
    Tracked { s with issued := s.encode sequence :: s.issued } where
  epoch := h.epoch
  le_epoch := forall_mem_cons.2 ⟨le_rfl, h.le_epoch⟩
  le_sequence := forall_mem_cons.2 ⟨fun _ => hle, h.le_sequence⟩

theorem Settled.issue (h : Settled s) (heq : s.journal.events = [] → sequence = s.journal.sequence) :
    Settled { s with issued := s.encode sequence :: s.issued } :=
  fun hevents => forall_mem_cons.2 ⟨fun _ => heq hevents, h hevents⟩

theorem epoch_of_decode {cursor : UpdatesCursor}
    (h : s.decode cursor = some sequence) : cursor.epoch = s.epoch ∧ cursor.sequence = sequence := by
  unfold decode at h
  split_ifs at h with heq
  · injection h with h
    exact ⟨congrArg UpdatesCursor.epoch heq, h⟩

theorem updates_ok {cursor : Option UpdatesCursor} {limit : ℕ} {answer : UpdatesAnswer ε}
    (h : s.updates cursor limit = .ok answer) :
    ∃ sequence last, s.startsAt cursor = some sequence ∧ answer.cursor = s.encode last ∧
      (last = sequence ∨ last ≤ s.journal.sequence) ∧ (s.journal.events = [] → last = sequence) := by
  unfold updates at h
  split_ifs at h with hreadable
  cases hstarts : s.startsAt cursor with
  | none => rw [hstarts] at h; exact nomatch h
  | some sequence =>
    rw [hstarts] at h
    simp only [] at h
    split_ifs at h with hbehind
    injection h with h
    refine ⟨sequence, _, rfl, (congrArg UpdatesAnswer.cursor h).symm, ?_, ?_⟩
    · cases hlast : (takeLimit limit (s.journal.after sequence)).getLast? with
      | none => exact Or.inl rfl
      | some event =>
        right
        have hmem : event ∈ takeLimit limit (s.journal.after sequence) :=
          mem_of_mem_getLast? hlast
        have hafter : event ∈ s.journal.after sequence := by
          unfold takeLimit at hmem
          split_ifs at hmem
          · exact hmem
          · exact mem_of_mem_take hmem
        exact (s.journal.mem_events_bounds (mem_of_mem_filter hafter)).2
    · intro hevents
      have hitems : takeLimit limit (s.journal.after sequence) = [] := by
        rw [s.journal.after_of_events_eq_nil hevents, takeLimit]
        split_ifs <;> simp
      rw [hitems]
      rfl

theorem startsAt_le (h : Tracked s) {cursor : Option UpdatesCursor}
    (hissued : (cursor.all fun given => decide (given ∈ s.issued)) = true)
    (hstarts : s.startsAt cursor = some sequence) :
    sequence ≤ s.journal.sequence ∧
      (Settled s → s.journal.events = [] → sequence = s.journal.sequence) := by
  cases cursor with
  | none =>
    injection hstarts with hstarts
    exact ⟨hstarts.ge, fun _ _ => hstarts.symm⟩
  | some given =>
    obtain ⟨hepoch, rfl⟩ := epoch_of_decode hstarts
    have hmem : given ∈ s.issued := by simpa using hissued
    exact ⟨h.le_sequence given hmem hepoch, fun hsettled hevents => hsettled hevents given hmem hepoch⟩

theorem Tracked.step (h : Tracked s) (event : SessionEvent ε) : Tracked (s.step config event) := by
  cases event with
  | engine event =>
    have := h.change (sessionChange config s.engine event)
    exact ⟨this.epoch, this.le_epoch, this.le_sequence⟩
  | append event =>
    simp only [AccountSession.step]
    split_ifs
    · exact ⟨h.epoch, h.le_epoch, fun cursor hcursor hepoch =>
        (h.le_sequence cursor hcursor hepoch).trans (Nat.le_succ _)⟩
    · exact h
  | beginRead =>
    simp only [AccountSession.step]
    split_ifs
    · exact h.issue le_rfl
    · exact h
  | updates cursor limit =>
    simp only [AccountSession.step]
    split_ifs with hissued
    · cases hanswer : s.updates cursor limit with
      | error code => exact h
      | ok answer =>
        obtain ⟨sequence, last, hstarts, hcursor, hlast, -⟩ := updates_ok hanswer
        have hle := (startsAt_le h hissued hstarts).1
        simp only [hcursor]
        refine h.issue ?_
        rcases hlast with rfl | hlast
        · exact hle
        · exact hlast
    · exact h

theorem Settled.step (hsettled : Settled s) (h : Tracked s) {event : SessionEvent ε}
    (hcareful : Careful config s event) : Settled (s.step config event) := by
  cases event with
  | engine event =>
    exact h.settled_change hsettled hcareful
  | append event =>
    simp only [AccountSession.step]
    split_ifs
    · exact fun hevents =>
        absurd hevents (s.journal.append_events_ne_nil (by decide : 0 < keptEvents) event)
    · exact hsettled
  | beginRead =>
    simp only [AccountSession.step]
    split_ifs
    · exact hsettled.issue fun _ => rfl
    · exact hsettled
  | updates cursor limit =>
    simp only [AccountSession.step]
    split_ifs with hissued
    · cases hanswer : s.updates cursor limit with
      | error code => exact hsettled
      | ok answer =>
        obtain ⟨sequence, last, hstarts, hcursor, -, hlast⟩ := updates_ok hanswer
        simp only [hcursor]
        refine hsettled.issue fun hevents => ?_
        rw [hlast hevents]
        exact (startsAt_le h hissued hstarts).2 hsettled hevents
    · exact hsettled

end AccountSession

/-- **The journal has no silent gap, but for sessions that are reset in their epoch.** In every run, a
cursor that was given out and is accepted is answered without a gap exactly when the journal is not empty
or the cursor is at its end. Where no `logout` and no `remove` is accepted while a cursor of the epoch is
behind, every such cursor is. -/
theorem updates_of_run {ε : Type} {config : Config} {events : List (SessionEvent ε)} {s : AccountSession ε}
    (hrun : Run (fun s e s' => AccountSession.step config s e = s') {} events s) :
    (∀ cursor ∈ s.issued, s.Accepts cursor → ∀ limit,
      (Gapless cursor.sequence (s.updates (some cursor) limit) ↔
        s.journal.events ≠ [] ∨ cursor.sequence = s.journal.sequence)) ∧
      (Run (Within (AccountSession.Careful config) fun s e s' => AccountSession.step config s e = s') {} events s →
        ∀ cursor ∈ s.issued, s.Accepts cursor → ∀ limit,
          Gapless cursor.sequence (s.updates (some cursor) limit)) := by
  have htracked : s.Tracked := by
    refine hrun.invariant AccountSession.Tracked ?_ AccountSession.tracked_start
    rintro s event _ h rfl
    exact h.step event
  have hiff : ∀ cursor ∈ s.issued, s.Accepts cursor → ∀ limit,
      (Gapless cursor.sequence (s.updates (some cursor) limit) ↔
        s.journal.events ≠ [] ∨ cursor.sequence = s.journal.sequence) := by
    intro cursor hcursor haccepts limit
    have hepoch := (AccountSession.epoch_of_decode haccepts.2).1
    exact gapless_iff haccepts (htracked.le_sequence cursor hcursor hepoch) limit
  refine ⟨hiff, fun hcareful cursor hcursor haccepts limit => ?_⟩
  have hsettled : s.Tracked ∧ s.Settled := by
    refine hcareful.invariant (fun s => s.Tracked ∧ s.Settled) ?_ ⟨AccountSession.tracked_start, nofun⟩
    rintro s event _ ⟨h, hsettled⟩ ⟨hok, rfl⟩
    exact ⟨h.step event, hsettled.step h hok⟩
  rw [hiff cursor hcursor haccepts limit, or_iff_not_imp_left, not_not]
  intro hevents
  exact hsettled.2 hevents cursor hcursor (AccountSession.epoch_of_decode haccepts.2).1

/-! ## A `logout` that fails at once -/

def readBehind : List (SessionEvent Unit) :=
  [.engine (.call (.reconcile { generation := 1, revision := 1, lifecycle := .active }))] ++
    (advances ([.done, .done, .done] ++ sampleActivation ++ [.done, .done, .done])).map .engine ++
    [.engine (.authorization 1 .ready), .beginRead, .append ()]

def behindCursor : UpdatesCursor := ⟨1, 1, 2, 0⟩

/-- The client gets what was journalled. -/
theorem updates_of_run_behind :
    let s := readBehind.foldl (AccountSession.step sampleConfig) {}
    behindCursor ∈ s.issued ∧ s.Accepts behindCursor ∧
      Gapless 0 (s.updates (some behindCursor) 100) := by
  intro s
  have hrun : Run (Within (AccountSession.Careful sampleConfig) fun s e s' => AccountSession.step sampleConfig s e = s')
      {} readBehind s := run_of_check _ (by decide +kernel)
  have hissued : behindCursor ∈ s.issued := by decide +kernel
  have haccepts : s.Accepts behindCursor := ⟨by decide +kernel, by decide +kernel⟩
  have hall := (updates_of_run (hrun.mono fun _ _ _ h => h.2)).2 hrun
  exact ⟨hissued, haccepts, hall behindCursor hissued haccepts 100⟩

/-- A `logout` is accepted, its first manifest cannot be written, and the account is reconciled
again. -/
def logoutFails : List (SessionEvent Unit) :=
  let sample : AccountCommand := { generation := 1, revision := 2, lifecycle := .active }
  readBehind ++ [.engine (.call (.logout { sample with logoutOperationId := some 5 }))] ++
    (advances [.done, .threw (.storage .ioError), .done]).map .engine ++
    [.engine (.call (.reconcile { sample with revision := 3 }))] ++
    (advances [.done, .done, .done, .done, .done, .done, .done]).map .engine

/-- **A cursor that is behind** is accepted, and it is answered that there is more, with no events. -/
theorem updates_after_logout :
    let s := logoutFails.foldl (AccountSession.step sampleConfig) {}
    Run (fun s e s' => AccountSession.step sampleConfig s e = s') {} logoutFails s ∧
      behindCursor ∈ s.issued ∧ s.Accepts behindCursor ∧
      s.updates (some behindCursor) 100 = .ok { items := [], cursor := behindCursor, hasMore := true } ∧
      ¬ Gapless 0 (s.updates (some behindCursor) 100) := by
  intro s
  have hanswer : s.updates (some behindCursor) 100 =
      .ok { items := [], cursor := behindCursor, hasMore := true } := by rfl
  refine ⟨(run_function_iff _ _ _ _).mpr rfl, by decide +kernel,
    ⟨by decide +kernel, by decide +kernel⟩, hanswer, ?_⟩
  rw [hanswer]
  rintro ⟨-, -, hmore⟩
  exact hmore rfl rfl

end Runtime
