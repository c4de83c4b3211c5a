import TeleBezel.Lib.Transition
import TeleBezel.Watch.Connection

/-!
# Polling comes to an end, and not before its time

While the connection of an account is not ready, it is asked for again and again for a limited time. A
request that is pending is answered in the end, and a timer that is armed runs out; as long as no other
state is told and the user does nothing, each of the two brings the polling closer to its end.
-/

namespace Watch.TbConnection

open Word Transition

variable (state : ℕ)

def stateError : TbConnectionError :=
  if state = tbConnectionUpdating then .longUpdate else .cannotConnect

def maxPolls : ℕ := limitOf state / delayOf state 0

/-- The request layer calls back for requests that there are, and tells of a cancelled one only when
the connection has given it up. -/
def Possible (connection : TbConnection) : ConnectionEvent × Submitted → Prop
  | (.response sequence response, _) =>
    sequence ≠ 0 ∧ (response.outcome = .cancelled → sequence ≠ connection.pending)
  | _ => True

def submits (connection : TbConnection) : ℕ := connection.calls.countP (· = .submit ())

/-- **The timer is armed whenever a poll is due**, and the time of the polls is within its limit. -/
structure Armed (connection : TbConnection) : Prop where
  timer : connection.polling = true → connection.active = true → connection.pending = 0 →
    connection.timer = some connection.delay
  window : connection.window ≤ limitOf connection.state

/-- The state that is told, as `apply` takes it. -/
def told : ℕ := if tbConnectionReady < state then 0 else state

def Quiet (connection : TbConnection) : ConnectionEvent × Submitted → Prop
  | (.timer, _) => True
  | (.summary state _, _) => told state = connection.state
  | (.response sequence response, _) => sequence = connection.pending →
    ∀ status ∈ answer response, told status.connection = connection.state
  | _ => False

def turn (connection : TbConnection) : ConnectionEvent × Submitted → ℕ
  | (.timer, _) => if connection.timer = none then 0 else 1
  | (.response sequence _, _) => if sequence = connection.pending then 1 else 0
  | _ => 0

def turns : TbConnection → List (ConnectionEvent × Submitted) → ℕ
  | _, [] => 0
  | connection, event :: events => connection.turn event + turns (connection.step event) events

/-- Nothing but polls, their answers and the timer. -/
def Undisturbed : TbConnection → List (ConnectionEvent × Submitted) → Prop
  | _, [] => True
  | connection, event :: events =>
    connection.Possible event ∧ connection.Quiet event ∧ Undisturbed (connection.step event) events

/-- **The polls of a state come to an end**: what events that tell of no other state lead to. -/
structure Ends (connection after : TbConnection) (turns : ℕ) : Prop where
  state : after.state = connection.state
  polls : after.submits ≤ connection.submits + maxPolls connection.state
  turns : after.polling = true → turns ≤ 2 * maxPolls connection.state + 1
  next : after.polling = true → after.pending ≠ 0 ∨ after.timer ≠ none
  error : after.polling = false → after.error = stateError connection.state

/-! ## What a run keeps -/

structure Steady (connection : TbConnection) : Prop where
  window : connection.window ≤ limitOf connection.state
  polls : delayOf connection.state 0 * connection.polls ≤ connection.window
  delay : connection.polling = true →
    delayOf connection.state 0 ≤ connection.delay ∧ connection.delay < 100000
  told : connection.polling = true →
    connection.known = true ∧ connection.fresh = false ∧ connection.account ≠ []
  account : connection.pending ≠ 0 → connection.account ≠ []

structure Sound (connection : TbConnection) : Prop extends Steady connection where
  timer : connection.polling = true → connection.active = true → connection.pending = 0 →
    connection.timer = some connection.delay ∧
      connection.window + connection.delay ≤ limitOf connection.state
  idle : connection.pending ≠ 0 → connection.timer = none

variable {connection : TbConnection}

theorem limitOf_le : limitOf state ≤ 20000 := by
  unfold limitOf
  split_ifs <;> omega

theorem le_delayOf : 2000 ≤ delayOf state 0 := by
  unfold delayOf
  split_ifs <;> omega

theorem delayOf_bounds {state polls : ℕ} (hpolls : polls ≤ 10) :
    delayOf state 0 ≤ delayOf state polls ∧ delayOf state polls < 100000 := by
  unfold delayOf
  split_ifs <;> omega

theorem Steady.polls_le (h : Steady connection) : connection.polls ≤ maxPolls connection.state := by
  have hpos := le_delayOf connection.state
  rw [maxPolls, Nat.le_div_iff_mul_le (by omega), Nat.mul_comm]
  exact h.polls.trans h.window

theorem maxPolls_le : maxPolls state ≤ 10 := by
  have hpos := le_delayOf state
  have hlimit := limitOf_le state
  exact Nat.div_le_of_le_mul (hlimit.trans (Nat.mul_le_mul_right 10 hpos))

theorem arm_cases (connection : TbConnection) :
    (connection.arm = { connection with timer := none } ∧
      (connection.polling = false ∨ connection.active = false ∨ connection.pending ≠ 0)) ∨
    (connection.arm = { connection with
      timer := none, polling := false, error := stateError connection.state } ∧
      connection.pending = 0) ∨
    (connection.arm = { connection with timer := some connection.delay } ∧ connection.pending = 0 ∧
      uint32 (connection.window + connection.delay : ℕ) ≤ limitOf connection.state) := by
  unfold arm
  by_cases hidle : ¬ connection.polling = true ∨ ¬ connection.active = true ∨ connection.pending ≠ 0
  · rw [if_pos hidle]
    exact .inl ⟨rfl, by simpa using hidle⟩
  · rw [if_neg hidle]
    simp only [not_or, not_not] at hidle
    by_cases hover : limitOf connection.state < uint32 (connection.window + connection.delay : ℕ)
    · rw [if_pos hover]
      exact .inr (.inl ⟨rfl, hidle.2.2⟩)
    · rw [if_neg hover]
      exact .inr (.inr ⟨rfl, hidle.2.2, Nat.le_of_not_lt hover⟩)

theorem Steady.arm (h : Steady connection) : Sound connection.arm := by
  rcases arm_cases connection with ⟨heq, hidle⟩ | ⟨heq, -⟩ | ⟨heq, hpending, hroom⟩
  · rw [heq]
    refine { h with timer := fun hpolling hactive hpending => ?_, idle := fun _ => rfl }
    simp_all
  · rw [heq]
    exact { h with delay := nofun, told := nofun, timer := nofun, idle := fun _ => rfl }
  · rw [heq]
    refine { h with timer := fun hpolling _ _ => ⟨rfl, ?_⟩, idle := fun hnot => absurd hpending hnot }
    have hdelay := (h.delay hpolling).2
    have hwindow := h.window.trans (limitOf_le _)
    unfold uint32 at hroom
    dsimp only
    omega

theorem Steady.proceed (h : Steady connection) : Sound connection.proceed := by
  refine Steady.arm { h with delay := fun _ => ?_ }
  exact delayOf_bounds (h.polls_le.trans (maxPolls_le _))

theorem sound_enter (haccount : connection.account ≠ []) (state : ℕ) : Sound (connection.enter state) := by
  refine Steady.arm ⟨Nat.zero_le _, Nat.le_refl _, fun _ => ?_, fun _ => ⟨rfl, rfl, haccount⟩,
    fun _ => haccount⟩
  exact delayOf_bounds (by omega)

theorem Steady.apply (h : Steady connection) (haccount : connection.account ≠ []) {state : ℕ}
    {proxy polled : Bool} (hidle : connection.pending ≠ 0 → connection.timer = none)
    (hpolled : polled = false → Sound connection) :
    Sound (connection.apply state proxy polled) := by
  unfold TbConnection.apply
  by_cases hsame : connection.known = true ∧ ¬ connection.fresh = true ∧
      (if tbConnectionReady < state then 0 else state) = connection.state
  · rw [if_pos hsame]
    by_cases hproceed : polled = true ∧ connection.polling = true
    · rw [if_pos hproceed]
      exact Steady.proceed { h with }
    · rw [if_neg hproceed]
      refine { h with timer := fun hpolling hactive hpending => ?_, idle := hidle }
      have hnot : polled = false := by simpa [show connection.polling = true from hpolling] using hproceed
      exact (hpolled hnot).timer hpolling hactive hpending
  · rw [if_neg hsame]
    exact @sound_enter { connection with proxy } haccount _

theorem Steady.completed (h : Sound connection) {sequence : ℕ} {response : TbResponse}
    (hsequence : sequence ≠ 0) : Sound (connection.completed sequence response) := by
  unfold TbConnection.completed
  split_ifs with hother
  · exact h
  · simp only [not_or, not_not] at hother
    have haccount := h.account (hother.1 ▸ hsequence)
    have hsteady : Steady { connection with pending := 0 } := { h with account := nofun }
    dsimp only
    split
    · exact hsteady.apply haccount (absurd rfl) nofun
    · have hcalled : Steady { connection with
          pending := 0, calls := connection.calls ++ abandoned sequence response } := { hsteady with }
      split_ifs with hpolling
      · exact hcalled.proceed
      · exact { hcalled with timer := fun hpolls => absurd hpolls hpolling, idle := absurd rfl }

theorem Sound.due (h : Sound connection)
    (hdue : ¬ (¬ connection.polling = true ∨ ¬ connection.active = true ∨ connection.pending ≠ 0 ∨
      connection.account = [])) :
    uint32 (connection.window + connection.delay : ℕ) = connection.window + connection.delay ∧
      connection.window + connection.delay ≤ limitOf connection.state ∧
      (connection.polls + 1) % 256 = connection.polls + 1 ∧
      delayOf connection.state 0 * (connection.polls + 1) ≤ connection.window + connection.delay := by
  simp only [not_or, not_not] at hdue
  have hroom := (h.timer hdue.1 hdue.2.1 hdue.2.2.1).2
  have hlimit := limitOf_le connection.state
  have hpolls := h.polls_le.trans (maxPolls_le _)
  have hdelay := (h.delay hdue.1).1
  have hsum := h.polls
  refine ⟨by unfold uint32; omega, hroom, by omega, ?_⟩
  rw [Nat.mul_add, Nat.mul_one]
  omega

theorem Sound.timerRan (h : Sound connection) (submitted : Submitted) :
    Sound (connection.timerRan submitted) := by
  unfold TbConnection.timerRan
  dsimp only
  by_cases hidle : ¬ connection.polling = true ∨ ¬ connection.active = true ∨ connection.pending ≠ 0 ∨
      connection.account = []
  · rw [if_pos hidle]
    refine { h with timer := fun hpolling hactive hpending => ?_, idle := fun _ => rfl }
    have haccount := (h.told hpolling).2.2
    simp_all
  · obtain ⟨hwindow, hroom, hpolls, hsum⟩ := h.due hidle
    have haccount : connection.account ≠ [] := fun hnone => hidle (.inr (.inr (.inr hnone)))
    rw [if_neg hidle, hwindow, hpolls]
    have hsteady : Steady { connection with
        timer := none
        window := connection.window + connection.delay
        polls := connection.polls + 1
        pending := submitted.sequence
        calls := connection.calls ++ [.submit ()] } :=
      { h with window := hroom, polls := hsum, account := fun _ => haccount }
    split_ifs with hfailed
    · exact hsteady.proceed
    · exact { hsteady with timer := fun _ _ hnone => absurd hnone hfailed, idle := fun _ => rfl }

variable {event : ConnectionEvent × Submitted}

theorem sound_step (h : Sound connection)
    (hpossible : connection.Possible event) : Sound (connection.step event) := by
  have hclosed : ∀ calls account active, Sound { calls, account, active } := fun calls account active =>
    ⟨⟨Nat.zero_le _, Nat.le_refl _, nofun, nofun, fun hnone => absurd rfl hnone⟩, nofun, absurd rfl⟩
  obtain ⟨event, submitted⟩ := event
  cases event with
  | «open» account | close => exact hclosed _ _ _
  | timer => exact h.timerRan submitted
  | response sequence response => exact Steady.completed h hpossible.1
  | summary state proxy =>
    simp only [step, summary]
    split_ifs with haccount
    · exact h
    · exact h.toSteady.apply haccount h.idle fun _ => h
  | refresh =>
    simp only [step, refresh]
    split_ifs with haccount
    · exact h
    · exact ⟨{ h with delay := nofun, told := nofun, account := fun _ => haccount }, nofun, absurd rfl⟩
  | setActive active =>
    simp only [step, setActive]
    split_ifs with hactive
    · exact Steady.arm { h with }
    · exact { h with timer := fun _ hactive' => absurd hactive' hactive, idle := fun _ => rfl }

/-! ## Quiet runs -/

def rank (connection : TbConnection) : ℕ :=
  2 * (maxPolls connection.state - connection.polls) + if connection.pending = 0 then 0 else 1

structure Follows (connection after : TbConnection) : Prop where
  state : after.state = connection.state
  active : after.active = connection.active
  known : after.known = connection.known
  fresh : after.fresh = connection.fresh
  submits : after.submits + connection.polls = connection.submits + after.polls
  polling : after.polling = true → connection.polling = true
  error : after.polling = false → after.error = stateError connection.state ∨
    connection.polling = false ∧ after.error = connection.error

theorem follows_proceed (hsame : Follows connection after) (hpolling : after.polling = true) :
    Follows connection after.proceed ∧ after.proceed.polls = after.polls ∧
      after.proceed.pending = after.pending := by
  have hgo : ∀ timer delay, Follows connection { after with timer, delay } := fun timer delay =>
    { hsame with error := fun hended => absurd (hpolling.symm.trans hended) (by decide) }
  rcases arm_cases { after with delay := delayOf after.state after.polls } with
    ⟨heq, -⟩ | ⟨heq, -⟩ | ⟨heq, -⟩
  · rw [proceed, heq]
    exact ⟨hgo _ _, rfl, rfl⟩
  · rw [proceed, heq]
    refine ⟨{ hsame with polling := nofun, error := fun _ => .inl ?_ }, rfl, rfl⟩
    exact congrArg stateError hsame.state
  · rw [proceed, heq]
    exact ⟨hgo _ _, rfl, rfl⟩

theorem follows_refl (connection : TbConnection) : Follows connection connection :=
  ⟨rfl, rfl, rfl, rfl, rfl, id, fun hended => .inr ⟨hended, rfl⟩⟩

theorem submits_abandoned (connection : TbConnection) (sequence : ℕ) (response : TbResponse) :
    ({ connection with
      calls := connection.calls ++ abandoned sequence response } : TbConnection).submits =
        connection.submits := by
  rw [submits, List.countP_append, abandoned]
  split_ifs <;> simp [submits]

theorem follows_apply (hknown : connection.known = true ∧ connection.fresh = false)
    (hsame : Follows connection after) {state : ℕ} (hstate : told state = connection.state)
    (proxy polled : Bool) :
    Follows connection (after.apply state proxy polled) ∧
      (after.apply state proxy polled).polls = after.polls ∧
      (after.apply state proxy polled).pending = after.pending := by
  have hfollows : Follows connection { after with proxy } := { hsame with }
  have hold : after.known = true ∧ ¬ after.fresh = true ∧
      (if tbConnectionReady < state then 0 else state) = after.state :=
    ⟨hsame.known.trans hknown.1, by simp [hsame.fresh, hknown.2], hstate.trans hsame.state.symm⟩
  unfold TbConnection.apply
  rw [if_pos hold]
  split_ifs with hproceed
  · exact follows_proceed hfollows hproceed.2
  · exact ⟨hfollows, rfl, rfl⟩

section

variable (h : Sound connection) (hactive : connection.active = true) (hknown : connection.known =
  true ∧ connection.fresh = false)
include h hactive hknown

theorem quiet_step (hpossible : connection.Possible event) (hquiet : connection.Quiet event) :
    Follows connection (connection.step event) ∧ ((connection.step event).polling = true →
      connection.turn event + (connection.step event).rank ≤ connection.rank) := by
  have hrefl := follows_refl connection
  obtain ⟨event, submitted⟩ := event
  cases event with
  | «open» | close | refresh | setActive => exact hquiet.elim
  | summary state proxy =>
    simp only [step, summary, turn, Nat.zero_add]
    split_ifs with haccount
    · exact ⟨hrefl, fun _ => Nat.le_refl _⟩
    · obtain ⟨hfollows, hpolls, hpending⟩ := follows_apply hknown hrefl hquiet proxy false
      refine ⟨hfollows, fun _ => ?_⟩
      rw [rank, rank, hfollows.state, hpolls, hpending]
  | response sequence response =>
    simp only [step, turn]
    by_cases hother : sequence ≠ connection.pending ∨ response.outcome = .cancelled
    · have hturn : ¬ sequence = connection.pending := fun hsame =>
        hother.elim (absurd hsame) fun hcancelled => hpossible.2 hcancelled hsame
      rw [TbConnection.completed, if_pos hother, if_neg hturn, Nat.zero_add]
      exact ⟨hrefl, fun _ => Nat.le_refl _⟩
    · have hanswered := hother
      simp only [not_or, not_not] at hanswered
      have hpending : connection.pending ≠ 0 := hanswered.1 ▸ hpossible.1
      -- the request is not pending any more, and nothing else of what is counted has changed
      suffices hafter : Follows connection (connection.completed sequence response) ∧
          (connection.completed sequence response).polls = connection.polls ∧
          (connection.completed sequence response).pending = 0 by
        refine ⟨hafter.1, fun _ => ?_⟩
        rw [if_pos hanswered.1, rank, rank, hafter.1.state, hafter.2.1, hafter.2.2, if_pos rfl,
          if_neg hpending]
        omega
      rw [TbConnection.completed, if_neg hother]
      dsimp only
      split
      · rename_i status hstatus
        exact @follows_apply connection { connection with pending := 0 } hknown { hrefl with } _
          (hquiet hanswered.1 status hstatus) _ _
      · have hcalled : Follows connection { connection with
            pending := 0, calls := connection.calls ++ abandoned sequence response } :=
          { hrefl with submits := congrArg (· + connection.polls) (submits_abandoned _ _ _) }
        split_ifs with hpolling
        · exact follows_proceed hcalled hpolling
        · exact ⟨hcalled, rfl, rfl⟩
  | timer =>
    simp only [step, timerRan, turn]
    by_cases hidle : ¬ connection.polling = true ∨ ¬ connection.active = true ∨
        connection.pending ≠ 0 ∨ connection.account = []
    · rw [if_pos hidle]
      refine ⟨{ hrefl with }, fun hpolling => ?_⟩
      have haccount := (h.told hpolling).2.2
      have hturn : connection.timer = none := by
        apply h.idle
        simpa [show connection.polling = true from hpolling, hactive, haccount] using hidle
      rw [if_pos hturn, Nat.zero_add]
      exact Nat.le_refl _
    · obtain ⟨hwindow, hroom, hpolls, hsum⟩ := h.due hidle
      simp only [not_or, not_not] at hidle
      have hmax : connection.polls + 1 ≤ maxPolls connection.state := by
        have hpos := le_delayOf connection.state
        rw [maxPolls, Nat.le_div_iff_mul_le (by omega), Nat.mul_comm]
        exact hsum.trans hroom
      rw [if_neg (by simpa using hidle), hpolls]
      have hcalled : Follows connection { connection with
          timer := none
          window := uint32 (connection.window + connection.delay : ℕ)
          polls := connection.polls + 1
          pending := submitted.sequence
          calls := connection.calls ++ [.submit ()] } := by
        refine { hrefl with submits := ?_ }
        rw [submits, submits, List.countP_append]
        simp
        omega
      by_cases hfailed : submitted.sequence = 0
      · rw [if_pos hfailed]
        obtain ⟨hfollows, hpolls, hpending⟩ := follows_proceed hcalled hidle.1
        refine ⟨hfollows, fun _ => ?_⟩
        rw [rank, rank, hfollows.state, hpolls, hpending]
        dsimp only
        rw [if_pos hfailed]
        split_ifs <;> omega
      · rw [if_neg hfailed]
        refine ⟨hcalled, fun _ => ?_⟩
        rw [rank, rank]
        dsimp only
        rw [if_neg hfailed, if_pos hidle.2.2.1]
        split_ifs <;> omega

theorem quiet_run
    {events : List (ConnectionEvent × Submitted)} (hevents : connection.Undisturbed events) :
    Sound (events.foldl step connection) ∧ Follows connection (events.foldl step connection) ∧
      ((events.foldl step connection).polling = true →
        connection.turns events + (events.foldl step connection).rank ≤ connection.rank) := by
  induction events generalizing connection with
  | nil => exact ⟨h, follows_refl connection, fun _ => by simp [turns]⟩
  | cons event events ih =>
    obtain ⟨hpossible, hquiet, hevents⟩ := hevents
    obtain ⟨hfirst, hturn⟩ := quiet_step h hactive hknown hpossible hquiet
    obtain ⟨hsound, hrest, hturns⟩ := ih (sound_step h hpossible) (hfirst.active.trans hactive)
      ⟨hfirst.known.trans hknown.1, hfirst.fresh.trans hknown.2⟩ hevents
    rw [List.foldl_cons]
    refine ⟨hsound, ⟨hrest.state.trans hfirst.state, hrest.active.trans hfirst.active,
      hrest.known.trans hfirst.known, hrest.fresh.trans hfirst.fresh, ?_,
      fun hpolling => hfirst.polling (hrest.polling hpolling), fun hended => ?_⟩, fun hpolling => ?_⟩
    · have h₁ := hfirst.submits
      have h₂ := hrest.submits
      omega
    · rcases hrest.error hended with herror | ⟨hended', herror⟩
      · exact .inl (herror.trans (congrArg stateError hfirst.state))
      · rw [herror]
        exact hfirst.error hended'
    · have h₁ := hturn (hrest.polling hpolling)
      have h₂ := hturns hpolling
      rw [turns]
      omega

end

/-- **Polling neither stops early nor runs for ever.** In every state of a run the timer is armed when a
poll is due and the window is within its limit; and whatever quiet events follow while the polls of a
state are under way, they come to an end. -/
theorem polling_of_run {events : List (ConnectionEvent × Submitted)} {connection : TbConnection}
    (hrun : Run (Within Possible fun s e s' => s.step e = s') {} events connection) :
    Armed connection ∧ ∀ quiet, connection.polling = true → connection.active = true →
      connection.Undisturbed quiet →
        Ends connection (quiet.foldl step connection) (connection.turns quiet) := by
  have h : Sound connection := by
    refine hrun.invariant Sound ?_ ⟨⟨Nat.zero_le _, Nat.le_refl _, nofun, nofun, absurd rfl⟩, nofun,
      absurd rfl⟩
    rintro s e _ hs ⟨hpossible, rfl⟩
    exact sound_step hs hpossible
  refine ⟨⟨fun hpolling hactive hpending => (h.timer hpolling hactive hpending).1, h.window⟩, ?_⟩
  intro quiet hpolling hactive hquiet
  have htold := h.told hpolling
  obtain ⟨hsound, hfollows, hturns⟩ := quiet_run h hactive ⟨htold.1, htold.2.1⟩ hquiet
  refine ⟨hfollows.state, ?_, fun hgoes => ?_, fun hgoes => ?_, fun hended => ?_⟩
  · have hsubmits := hfollows.submits
    have hpolls := hsound.polls_le
    rw [hfollows.state] at hpolls
    omega
  · have hle := hturns hgoes
    have hrank : connection.rank ≤ 2 * maxPolls connection.state + 1 := by
      rw [rank]
      split_ifs <;> omega
    omega
  · by_cases hpending : (quiet.foldl step connection).pending = 0
    · right
      rw [(hsound.timer hgoes (hfollows.active.trans hactive) hpending).1]
      simp
    · exact .inl hpending
  · rcases hfollows.error hended with herror | ⟨hnot, -⟩
    · exact herror
    · exact absurd hnot (by simp [hpolling])

/-- A connection that is being updated is told of, and polled. -/
theorem polling_updating :
    let opened := [(ConnectionEvent.open [97], ⟨1, .timeout⟩), (.setActive true, ⟨1, .timeout⟩),
      (.summary 1 false, ⟨1, .timeout⟩)].foldl step {}
    Ends opened ([(ConnectionEvent.timer, ⟨1, .timeout⟩)].foldl step opened)
      (opened.turns [(.timer, ⟨1, .timeout⟩)]) := by
  have hrun : Run (Within Possible fun s e s' => s.step e = s') {}
      [(ConnectionEvent.open [97], ⟨1, .timeout⟩), (.setActive true, ⟨1, .timeout⟩),
        (.summary 1 false, ⟨1, .timeout⟩)]
      ([(ConnectionEvent.open [97], ⟨1, .timeout⟩), (.setActive true, ⟨1, .timeout⟩),
        (.summary 1 false, ⟨1, .timeout⟩)].foldl step {}) :=
    (((Run.nil _).snoc ⟨trivial, rfl⟩).snoc ⟨trivial, rfl⟩).snoc ⟨trivial, rfl⟩
  exact (polling_of_run hrun).2 [(.timer, ⟨1, .timeout⟩)] (by decide) (by decide)
    ⟨trivial, trivial, trivial⟩

end Watch.TbConnection
