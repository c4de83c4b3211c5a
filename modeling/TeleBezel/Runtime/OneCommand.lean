import TeleBezel.Runtime.Calm

/-!
# One command at a time

A command marks the account as busy in its first critical section, and gives it free in its last. As
long as it is busy, all other commands are refused in their first critical section. What is to be shown
of the runtime is then shown of each command by itself, against what can happen beside it.
-/

namespace Runtime

open Program Transition

/-- What is to be shown of the runtime: an invariant, what every step does, what others may do while a
command is at an action, and what holds of a command that has ended. It is shown under a condition on
events, where the action that a command is at is known. -/
structure Discipline where
  inv : World → Prop
  rel : World → World → Prop
  others : Point → World → World → Prop
  permits : Option Point → World → EngineEvent → Prop
  ends : Command → Except ErrorCode Answer → World → Prop
  rel_refl : ∀ s, rel s s
  rel_trans : ∀ {s s' s''}, rel s s' → rel s' s'' → rel s s''
  others_refl : ∀ tag s, others tag s s
  others_trans : ∀ {tag s s' s''}, others tag s s' → others tag s' s'' → others tag s s''
  ends_rel : ∀ {command result s s'}, rel s s' → ends command result s → ends command result s'

namespace Discipline

variable (d : Discipline)

def contract : Contract Point World Reply where
  during s := s.account.busy = true ∧ s.known = true
  rely tag s s' := d.inv s' ∧ d.rel s s' ∧ Same s s' ∧ d.others tag s s'
  allowed tag s reply := d.permits (some tag) s (.advance 0 reply)
  guarantee s s' := d.inv s' ∧ d.rel s s'
  keeps := by
    rintro tag s s' ⟨-, -, hsame, -⟩ ⟨hbusy, hknown⟩
    exact ⟨hsame.busy.trans hbusy, hsame.known.trans hknown⟩
  trans := by
    rintro tag s s' s'' ⟨-, hrel, hsame, hothers⟩ ⟨hinv, hrel', hsame', hothers'⟩
    exact ⟨hinv, d.rel_trans hrel hrel', hsame.trans hsame', d.others_trans hothers hothers'⟩

/-- A command has ended, and the account is free. -/
abbrev Ended (command : Command) (result : Except ErrorCode Answer) (s : World) : Prop :=
  s.account.busy = false ∧ d.ends command result s

def Runs (command : Command) (program : Cmd Answer) (s : World) : Prop :=
  Meets d.contract (fun answer => d.Ended command (.ok answer))
    (fun code => d.Ended command (.error code)) program s

/-- A part of a command keeps what holds, however it ends. -/
abbrev Keeps {α : Type} (P : World → Prop) (part : Cmd α) (s : World) : Prop :=
  Meets d.contract (fun _ => P) (fun _ => P) part s

/-- The discipline permits the event. -/
def Permitted (s : Engine) (event : EngineEvent) : Prop :=
  d.permits (s.running.head?.bind fun entry => entry.2.tag?) s.world event

end Discipline

def first : Cmd Answer → World → World × Cmd Answer
  | .act _ effect next, s => (effect s .done, next s .done)
  | .ret answer, s => (s, .ret answer)
  | .raise code, s => (s, .raise code)

theorem first_criticalOr {α : Type} (g : World → Except ErrorCode α × World) (k : α → Cmd Answer)
    (s : World) : first (criticalOr g >>= k) s = ((g s).2, match (g s).1 with
      | .ok value => k value
      | .error code => .raise code) := by
  have hbind : first (criticalOr g >>= k) s = ((g s).2, Prog.bind (match (g s).1 with
      | .ok value => .ret value
      | .error code => .raise code) k) := rfl
  rw [hbind]
  cases (g s).1 with
  | ok value => rfl
  | error code => rfl

structure Begins (d : Discipline) (command : Command) (program : Cmd Answer) (s : World) :
    Prop where
  inv : d.inv (first program s).1
  rel : d.rel s (first program s).1
  runs : d.Runs command (first program s).2 (first program s).1

def ended : Except ErrorCode Answer → Cmd Answer
  | .ok answer => .ret answer
  | .error code => .raise code

def Refusal (command : Command) (result : Except ErrorCode Answer) : Prop :=
  (∃ code, result = .error code) ∨ (∃ code status, result = .ok (.failed code status)) ∨
    ∃ c, command = .remove c

section Busy

variable {config : Config} {s : World} (hknown : s.known = true) (hbusy : s.account.busy = true)
include hknown hbusy

omit hbusy in
theorem entering_refuses {α : Type} (command : AccountCommand) {f : World → (Answer ⊕ α) × World}
    {code : ErrorCode} {status : ℕ} (hf : f s = (.inl (.failed code status), s)) :
    (∃ code, entering config command f s = (.error code, s)) ∨
      entering config command f s = (.ok (.inl (.failed code status)), s) := by
  unfold entering validatedAccount
  cases s.manifestError with
  | some error => exact Or.inl ⟨error, rfl⟩
  | none =>
    dsimp only
    by_cases horphan : s.orphan = true ∧ command.lifecycle ≠ .provisioning
    · rw [if_pos horphan]
      exact Or.inl ⟨_, rfl⟩
    · rw [if_neg horphan, if_pos hknown]
      cases checkAccount config s.account command with
      | error error => exact Or.inl ⟨error, rfl⟩
      | ok value =>
        refine Or.inr ?_
        dsimp only
        rw [hf]

omit hbusy in
theorem first_refuses {α : Type} (c : AccountCommand) (command : Command)
    {f : World → (Answer ⊕ α) × World} {code : ErrorCode} {status : ℕ}
    (hf : f s = (.inl (.failed code status), s)) {k : Answer ⊕ α → Cmd Answer}
    (hk : ∀ answer, k (.inl answer) = pure answer) :
    ∃ result, first (criticalOr (entering config c f) >>= k) s = (s, ended result) ∧
      Refusal command result := by
  rw [first_criticalOr]
  rcases entering_refuses hknown c hf with ⟨error, heq⟩ | heq
  · rw [heq]
    exact ⟨.error error, rfl, Or.inl ⟨error, rfl⟩⟩
  · rw [heq]
    exact ⟨.ok (.failed code status), congrArg (Prod.mk s) (hk _),
      Or.inr (Or.inl ⟨code, status, rfl⟩)⟩

theorem program_busy (command : Command) :
    ∃ result, first (command.program config) s = (s, ended result) ∧ Refusal command result := by
  cases command with
  | reconcile c | logout c | updateProxy c =>
    exact first_refuses hknown c _ (if_pos hbusy) fun _ => rfl
  | authorization c valid =>
    obtain ⟨code, status, hf⟩ : ∃ code status, (if valid = true then beginAuthorization c s
        else (.inl (.failed .authorizationInvalidState 409), s)) =
        (.inl (.failed code status), s) := by
      cases valid with
      | false => exact ⟨_, _, rfl⟩
      | true =>
        unfold beginAuthorization
        by_cases hreconciled : s.account.reconciled = true
        · exact ⟨.operationConflict, 409, by simp [hreconciled, hbusy, conflict]⟩
        · exact ⟨.authorizationInvalidState, 409, by simp [hreconciled]⟩
    exact first_refuses hknown c _ hf fun _ => rfl
  | remove c =>
    change ∃ result, first (criticalOr (enterRemove config c) >>= _) s = _ ∧ _
    rw [first_criticalOr]
    by_cases htombstone : s.account.tombstone = true
    · -- it has been removed
      have henter : ∃ answer, enterRemove config c s = (.ok (.inl answer), s) := by
        unfold enterRemove
        rw [if_pos ⟨hknown, htombstone⟩]
        split
        · exact ⟨_, rfl⟩
        · exact ⟨_, rfl⟩
      obtain ⟨answer, henter⟩ := henter
      rw [henter]
      exact ⟨.ok answer, rfl, Or.inr (Or.inr ⟨c, rfl⟩)⟩
    · have henter : enterRemove config c s = entering config c (beginRemove config c) s := by
        unfold enterRemove
        rw [if_neg fun h => htombstone h.2]
      rw [henter]
      have hf : beginRemove config c s = (.inl (.failed .operationConflict 409), s) := if_pos hbusy
      rcases entering_refuses hknown c hf with ⟨error, heq⟩ | heq
      · rw [heq]
        exact ⟨.error error, rfl, Or.inl ⟨error, rfl⟩⟩
      · rw [heq]
        exact ⟨.ok (.failed .operationConflict 409), rfl, Or.inr (Or.inl ⟨_, _, rfl⟩)⟩

end Busy

section Owned

variable {config : Config} {d : Discipline} {s : Engine}

structure Owned (d : Discipline) (s : Engine) : Prop where
  inv : d.inv s.world
  running : (s.running = [] ∧ s.world.account.busy = false) ∨
    ∃ command tag effect next, s.running = [(command, .act tag effect next)] ∧
      d.Runs command (.act tag effect next) s.world
  returned : ∀ entry ∈ s.returned, d.ends entry.1 entry.2 s.world

/-- What is to be shown for a discipline: of what happens beside the commands, of the process that
starts anew, and of each command. -/
structure Kept (config : Config) (d : Discipline) : Prop where
  beside : ∀ {tag s} (event : EngineEvent), d.inv s → d.permits tag s event →
    d.inv (event.effect s) ∧ d.rel s (event.effect s) ∧
      ∀ point, tag = some point → d.others point s (event.effect s)
  restart : ∀ {s} (readable : Bool), d.inv s →
    d.inv (s.restart readable) ∧ d.rel s (s.restart readable)
  refusal : ∀ {command result} (s : World), Refusal command result → d.ends command result s
  begins : ∀ (command : Command) {s : World}, d.inv s → s.account.busy = false →
    d.permits none s (.call command) → Begins d command (command.program config) s

theorem owned_resume (hinv : d.inv s.world) (hnone : s.running = [])
    (hreturned : ∀ entry ∈ s.returned, d.ends entry.1 entry.2 s.world) {command : Command}
    {program : Cmd Answer} (hruns : d.Runs command program s.world) :
    Owned d (s.resume command program) := by
  cases program with
  | ret answer | raise code =>
    refine ⟨hinv, Or.inl ⟨hnone, hruns.1⟩, fun entry hentry => ?_⟩
    rcases List.mem_cons.mp hentry with rfl | hold
    · exact hruns.2
    · exact hreturned entry hold
  | act tag effect next =>
    refine ⟨hinv, Or.inr ⟨command, tag, effect, next, ?_, hruns⟩, hreturned⟩
    exact congrArg (List.cons (command, Prog.act tag effect next)) hnone

theorem Owned.returned_of_rel (h : Owned d s) {world : World} (hrel : d.rel s.world world) :
    ∀ entry ∈ s.returned, d.ends entry.1 entry.2 world :=
  fun entry hentry => d.ends_rel hrel (h.returned entry hentry)

@[simp] theorem resume_world (command : Command) (program : Cmd Answer) :
    (s.resume command program).world = s.world := by
  cases program <;> rfl

theorem take_done (command : Command) (program : Cmd Answer) :
    s.take command .done program =
      { s with world := (first program s.world).1 }.resume command (first program s.world).2 := by
  cases program <;> rfl

theorem owned_ended (h : Owned d s) {command : Command} {result : Except ErrorCode Answer}
    (hends : d.ends command result s.world) : Owned d (s.resume command (ended result)) := by
  have hresume : s.resume command (ended result) =
      { s with returned := (command, result) :: s.returned } := by
    cases result <;> rfl
  rw [hresume]
  refine ⟨h.inv, h.running, fun entry hentry => ?_⟩
  rcases List.mem_cons.mp hentry with rfl | hold
  · exact hends
  · exact h.returned entry hold

theorem owned_call (hkept : Kept config d) (h : Owned d s) (command : Command)
    (hpermitted : d.Permitted s (.call command)) :
    Owned d (s.step config (.call command)) ∧
      d.rel s.world (s.step config (.call command)).world := by
  have hstep : s.step config (.call command) =
      { s with world := (first (command.program config) s.world).1 }.resume command
        (first (command.program config) s.world).2 := take_done command _
  rw [hstep, resume_world]
  rcases h.running with ⟨hnone, hfree⟩ | ⟨other, tag, effect, next, -, hruns⟩
  · unfold Discipline.Permitted at hpermitted
    rw [hnone] at hpermitted
    have hbegins := hkept.begins command h.inv hfree hpermitted
    refine ⟨?_, hbegins.rel⟩
    exact owned_resume (s := { s with world := _ }) hbegins.inv hnone
      (h.returned_of_rel hbegins.rel) hbegins.runs
  · -- another command is under way
    obtain ⟨hbusy, hknown⟩ := hruns.1
    obtain ⟨result, hfirst, hrefusal⟩ := program_busy hknown hbusy command
    rw [hfirst]
    exact ⟨owned_ended h (hkept.refusal s.world hrefusal), d.rel_refl s.world⟩

theorem owned_advance (h : Owned d s) (index : ℕ) (reply : Reply)
    (hpermitted : d.Permitted s (.advance index reply)) :
    Owned d (s.step config (.advance index reply)) ∧
      d.rel s.world (s.step config (.advance index reply)).world := by
  rcases h.running with ⟨hnone, -⟩ | ⟨command, tag, effect, next, hone, hruns⟩
  · have hstep : s.step config (.advance index reply) = s := by
      simp [Engine.step, hnone]
    rw [hstep]
    exact ⟨h, d.rel_refl s.world⟩
  cases index with
  | succ index =>
    have hstep : s.step config (.advance (index + 1) reply) = s := by
      simp [Engine.step, hone]
    rw [hstep]
    exact ⟨h, d.rel_refl s.world⟩
  | zero =>
    have hstep : s.step config (.advance 0 reply) =
        { s with world := effect s.world reply, running := [] }.resume command
          (next s.world reply) := by
      simp [Engine.step, Engine.take, hone]
    rw [hstep, resume_world]
    have hallowed : d.contract.allowed tag s.world reply := by
      unfold Discipline.Permitted at hpermitted
      rw [hone] at hpermitted
      exact hpermitted
    obtain ⟨⟨hinv, hrel⟩, hnext⟩ := hruns.2 s.world
      ⟨h.inv, d.rel_refl _, Same.refl _, d.others_refl tag _⟩ reply hallowed
    refine ⟨?_, hrel⟩
    exact owned_resume (s := { s with world := effect s.world reply, running := [] }) hinv rfl
      (h.returned_of_rel hrel) hnext

theorem same_effect (event : EngineEvent) (s : World) : Same s (event.effect s) := by
  cases event with
  | authorization client state =>
    change Same s (if state = .closed then s else handleAuthorization client state s)
    split
    · exact Same.refl s
    · exact same_handleAuthorization s client state
  | closed client cause => exact same_handleClosed s client cause
  | stalled client => exact same_stall s client
  | stop => exact same_stop s
  | pop => exact same_pop s
  | persist reply => exact same_persistJob s reply
  | settle => exact same_settle s
  | requeue => exact same_requeue s
  | call command | advance index reply | restart readable => exact Same.refl s

section

variable (hkept : Kept config d) (h : Owned d s)
include hkept h

theorem owned_beside (event : EngineEvent)
    (hpermitted : d.Permitted s event) :
    Owned d { s with world := event.effect s.world } ∧ d.rel s.world (event.effect s.world) := by
  obtain ⟨hinv, hrel, hothers⟩ := hkept.beside event h.inv hpermitted
  refine ⟨⟨hinv, ?_, h.returned_of_rel hrel⟩, hrel⟩
  have hsame := same_effect event s.world
  rcases h.running with ⟨hnone, hfree⟩ | ⟨command, tag, effect, next, hone, hruns⟩
  · exact Or.inl ⟨hnone, hsame.busy.trans hfree⟩
  · refine Or.inr ⟨command, tag, effect, next, hone, hruns.stable ?_⟩
    refine ⟨hinv, hrel, hsame, hothers tag ?_⟩
    rw [hone]
    rfl

theorem owned_restart (readable : Bool) :
    Owned d (s.step config (.restart readable)) ∧
      d.rel s.world (s.step config (.restart readable)).world := by
  obtain ⟨hinv, hrel⟩ := hkept.restart readable h.inv
  refine ⟨⟨hinv, Or.inl ⟨rfl, ?_⟩, h.returned_of_rel hrel⟩, hrel⟩
  change (World.restart s.world readable).account.busy = false
  unfold World.restart
  cases s.world.manifest with
  | none => rfl
  | some manifest => cases readable <;> rfl

theorem owned_step (event : EngineEvent)
    (hpermitted : d.Permitted s event) :
    Owned d (s.step config event) ∧ d.rel s.world (s.step config event).world := by
  cases event with
  | call command => exact owned_call hkept h command hpermitted
  | advance index reply => exact owned_advance h index reply hpermitted
  | restart readable => exact owned_restart hkept h readable
  | authorization client state | closed client cause | stalled client | stop | pop
  | persist reply | settle | requeue =>
    exact owned_beside hkept h _ hpermitted

end

theorem owned_of_run (hkept : Kept config d) {events : List EngineEvent} {s' : Engine}
    (hrun : Run (Within d.Permitted fun s e s' => s.step config e = s') s events s')
    (h : Owned d s) : Owned d s' ∧ d.rel s.world s'.world := by
  induction hrun with
  | nil => exact ⟨h, d.rel_refl _⟩
  | snoc _ hstep ih =>
    obtain ⟨howned, hrel⟩ := ih
    obtain ⟨hpermitted, rfl⟩ := hstep
    obtain ⟨howned', hrel'⟩ := owned_step hkept howned _ hpermitted
    exact ⟨howned', d.rel_trans hrel hrel'⟩

end Owned

section Rules

variable {config : Config} {d : Discipline} {s : World} {α : Type}

structure Underway (d : Discipline) (s : World) : Prop where
  inv : d.inv s
  busy : s.account.busy = true
  known : s.known = true

theorem Underway.rely {s' : World} {tag : Point} (h : Underway d s)
    (hrely : d.contract.rely tag s s') : Underway d s' :=
  ⟨hrely.1, hrely.2.2.1.busy.trans h.busy, hrely.2.2.1.known.trans h.known⟩

variable {fails : ErrorCode → World → Prop}

theorem meets_critical {f : World → α × World} {post : α → World → Prop} (h : Underway d s)
    (hf : ∀ s', Underway d s' → d.contract.rely .critical s s' →
      d.inv (f s').2 ∧ d.rel s' (f s').2 ∧ post (f s').1 (f s').2) :
    Meets d.contract post fails (critical f) s := by
  refine ⟨⟨h.busy, h.known⟩, fun s' hrely _ _ => ?_⟩
  obtain ⟨hinv, hrel, hpost⟩ := hf s' (h.rely hrely) hrely
  exact ⟨⟨hinv, hrel⟩, hpost⟩

theorem meets_seq {β : Type} {part : Cmd α} {k : α → Cmd β} {middle : α → World → Prop}
    {post : β → World → Prop} {fails' : ErrorCode → World → Prop}
    (hpart : Meets d.contract middle fails' part s)
    (hfails : ∀ code s, fails' code s → fails code s)
    (hk : ∀ value s, middle value s → Meets d.contract post fails (k value) s) :
    Meets d.contract post fails (part >>= k) s :=
  meets_bind.mpr (hpart.mono hk hfails)

theorem meets_onlyIf {condition : Bool} {part : Cmd Unit} {post : Unit → World → Prop}
    (hpart : Meets d.contract post fails part s)
    (hpost : post () s) : Meets d.contract post fails (onlyIf condition part) s := by
  unfold onlyIf
  split
  · exact hpart
  · exact hpost

theorem meets_every {rel : World → World → Prop} {part : Cmd α} (hpart : part.Every rel)
    (assertion : World → Prop) (h : Underway d s) (hs : assertion s)
    (hothers : ∀ tag s s', d.contract.rely tag s s' → assertion s → assertion s')
    (hrel : ∀ s s', Underway d s → assertion s → rel s s' →
      Underway d s' ∧ d.rel s s' ∧ assertion s') :
    Meets d.contract (fun _ s => Underway d s ∧ assertion s)
      (fun _ s => Underway d s ∧ assertion s) part s := by
  refine hpart.meets ?_ ?_ ?_ ⟨h, hs⟩
  · exact fun s hs => ⟨hs.1.busy, hs.1.known⟩
  · exact fun tag s s' hrely hs => ⟨hs.1.rely hrely, hothers tag s s' hrely hs.2⟩
  · intro s s' hs haction
    obtain ⟨hunderway, hrel', hassertion⟩ := hrel s s' hs.1 hs.2 haction
    exact ⟨⟨hunderway.inv, hrel'⟩, hunderway, hassertion⟩

theorem validatedAccount_cases (config : Config) (s : World) (c : AccountCommand) :
    ∃ s', (s' = s ∨ s.known = false ∧ s.manifestError = none ∧ s' = s.madeUp config c) ∧
      ((∃ code, validatedAccount config s c = (.error code, s')) ∨
        s'.known = true ∧ checkAccount config s'.account c = .ok () ∧
          validatedAccount config s c = (.ok (), s')) := by
  unfold validatedAccount
  cases hmanifest : s.manifestError with
  | some code => exact ⟨s, Or.inl rfl, Or.inl ⟨code, rfl⟩⟩
  | none =>
    dsimp only
    by_cases horphan : s.orphan = true ∧ c.lifecycle ≠ .provisioning
    · rw [if_pos horphan]
      exact ⟨s, Or.inl rfl, Or.inl ⟨_, rfl⟩⟩
    rw [if_neg horphan]
    by_cases hknown : s.known = true
    · rw [if_pos hknown]
      refine ⟨s, Or.inl rfl, ?_⟩
      cases hcheck : checkAccount config s.account c with
      | error code => exact Or.inl ⟨code, rfl⟩
      | ok value => exact Or.inr ⟨hknown, rfl, rfl⟩
    · rw [if_neg hknown]
      refine ⟨_, Or.inr ⟨by simpa using hknown, rfl, rfl⟩, ?_⟩
      cases hcheck : checkAccount config (s.madeUp config c).account c with
      | error code => exact Or.inl ⟨code, rfl⟩
      | ok value => exact Or.inr ⟨rfl, rfl, rfl⟩

theorem begins_entering {command : Command} {c : AccountCommand}
    {f : World → (Answer ⊕ α) × World} {k : Answer ⊕ α → Cmd Answer}
    (hk : ∀ answer, k (.inl answer) = pure answer) (hinv : d.inv s)
    (hfree : s.account.busy = false)
    (herror : ∀ code s, d.ends command (.error code) s)
    (hmadeUp : s.known = false → s.manifestError = none →
      d.inv (s.madeUp config c) ∧ d.rel s (s.madeUp config c))
    (hf : ∀ s, d.inv s → s.account.busy = false → s.known = true →
      checkAccount config s.account c = .ok () →
      (∃ answer, f s = (.inl answer, s) ∧ d.ends command (.ok answer) s) ∨
        ∃ plan, (f s).1 = .inr plan ∧ d.inv (f s).2 ∧ d.rel s (f s).2 ∧
          d.Runs command (k (.inr plan)) (f s).2) :
    Begins d command (criticalOr (entering config c f) >>= k) s := by
  obtain ⟨s', hs', hcases⟩ := validatedAccount_cases config s c
  obtain ⟨hinv', hrel', hfree'⟩ : d.inv s' ∧ d.rel s s' ∧ s'.account.busy = false := by
    rcases hs' with rfl | ⟨hunknown, hmanifest, rfl⟩
    · exact ⟨hinv, d.rel_refl _, hfree⟩
    · obtain ⟨hinv', hrel'⟩ := hmadeUp hunknown hmanifest
      exact ⟨hinv', hrel', rfl⟩
  rcases hcases with ⟨code, heq⟩ | ⟨hknown, hcheck, heq⟩
  · have hfirst : first (criticalOr (entering config c f) >>= k) s = (s', .raise code) := by
      rw [first_criticalOr, entering, heq]
    refine ⟨?_, ?_, ?_⟩
    · rw [hfirst]
      exact hinv'
    · rw [hfirst]
      exact hrel'
    · rw [hfirst]
      exact ⟨hfree', herror code s'⟩
  · have hfirst : first (criticalOr (entering config c f) >>= k) s = ((f s').2, k (f s').1) := by
      rw [first_criticalOr, entering, heq]
    rcases hf s' hinv' hfree' hknown hcheck with
      ⟨answer, hf', hends⟩ | ⟨plan, hplan, hinv'', hrel'', hruns⟩
    · rw [hf', hk] at hfirst
      refine ⟨?_, ?_, ?_⟩
      · rw [hfirst]
        exact hinv'
      · rw [hfirst]
        exact hrel'
      · rw [hfirst]
        exact ⟨hfree', hends⟩
    · rw [hplan] at hfirst
      refine ⟨?_, ?_, ?_⟩
      · rw [hfirst]
        exact hinv''
      · rw [hfirst]
        exact d.rel_trans hrel' hrel''
      · rw [hfirst]
        exact hruns

theorem begins_enterRemove {c : AccountCommand}
    {k : Answer ⊕ (AccountManifest × Bool) → Cmd Answer}
    (hk : ∀ answer, k (.inl answer) = pure answer) (hinv : d.inv s)
    (hfree : s.account.busy = false) (hends : ∀ result s, d.ends (.remove c) result s)
    (hbegins : Begins d (.remove c)
      (criticalOr (entering config c (beginRemove config c)) >>= k) s) :
    Begins d (.remove c) (criticalOr (enterRemove config c) >>= k) s := by
  by_cases hremoved : s.known = true ∧ s.account.tombstone = true
  · have henter : ∃ answer, enterRemove config c s = (.ok (.inl answer), s) := by
      unfold enterRemove
      rw [if_pos hremoved]
      split
      · exact ⟨_, rfl⟩
      · exact ⟨_, rfl⟩
    obtain ⟨answer, henter⟩ := henter
    have hfirst : first (criticalOr (enterRemove config c) >>= k) s = (s, pure answer) := by
      rw [first_criticalOr, henter, ← hk]
    refine ⟨?_, ?_, ?_⟩
    · rw [hfirst]
      exact hinv
    · rw [hfirst]
      exact d.rel_refl s
    · rw [hfirst]
      exact ⟨hfree, hends _ _⟩
  · have hfirst : first (criticalOr (enterRemove config c) >>= k) s =
        first (criticalOr (entering config c (beginRemove config c)) >>= k) s := by
      rw [first_criticalOr, first_criticalOr, enterRemove, if_neg hremoved]
    refine ⟨?_, ?_, ?_⟩
    · rw [hfirst]
      exact hbegins.inv
    · rw [hfirst]
      exact hbegins.rel
    · rw [hfirst]
      exact hbegins.runs

end Rules

section Taken

variable {config : Config} {s : World}

theorem le_of_checkAccount {account : AccountState} {c : AccountCommand}
    (h : checkAccount config account c = .ok ()) :
    account.authorizationGeneration ≤
      c.authorizationGeneration.getD account.authorizationGeneration := by
  unfold checkAccount at h
  by_contra hlt
  rw [if_pos (Nat.lt_of_not_le hlt)] at h
  split at h
  · exact absurd h (by simp)
  split at h
  · exact absurd h (by simp)
  split at h
  · exact absurd h (by simp)
  · exact absurd h (by simp)

/-- What a command, other than `logout`, makes of the account, and the manifest that it has at hand. -/
structure Taken (c : AccountCommand) (s : World) (account : AccountState)
    (manifest : AccountManifest) : Prop where
  busy : account.busy = true
  generation : account.authorizationGeneration =
    c.authorizationGeneration.getD s.account.authorizationGeneration
  written : manifest.authorizationGeneration = account.authorizationGeneration
  fingerprint : account.revisionFingerprint = some (c.fingerprint false)
  contentHash : manifest.contentHash = some (c.fingerprint false)
  clientId : account.clientId = s.account.clientId
  closed : account.closed = s.account.closed
  closing : account.closing = s.account.closing

variable (c : AccountCommand)

theorem beginReconcile_cases :
    (∃ answer, beginReconcile config c s = (.inl answer, s)) ∨
      ∃ plan account, beginReconcile config c s = (.inr plan, { s with account }) ∧
        Taken c s account plan.manifest := by
  unfold beginReconcile
  dsimp only
  generalize (if c.proxy.abbreviated = true then s.account.proxy else c.proxy) = desired
  split
  · exact Or.inl ⟨_, rfl⟩
  split
  · exact Or.inl ⟨_, rfl⟩
  split
  · exact Or.inl ⟨_, rfl⟩
  split
  · exact Or.inl ⟨_, rfl⟩
  split
  · exact Or.inl ⟨_, rfl⟩
  · exact Or.inr ⟨_, _, rfl, rfl, rfl, rfl, rfl, rfl, rfl, rfl, rfl⟩

theorem beginUpdateProxy_cases :
    (∃ answer, beginUpdateProxy config c s = (.inl answer, s)) ∨
      ∃ intent account, beginUpdateProxy config c s = (.inr intent, { s with account }) ∧
        Taken c s account intent := by
  unfold beginUpdateProxy
  dsimp only
  split
  · exact Or.inl ⟨_, rfl⟩
  split
  · exact Or.inl ⟨_, rfl⟩
  split
  · exact Or.inl ⟨_, rfl⟩
  split
  · exact Or.inl ⟨_, rfl⟩
  split
  · exact Or.inl ⟨_, rfl⟩
  · exact Or.inr ⟨_, _, rfl, rfl, rfl, rfl, rfl, rfl, rfl, rfl, rfl⟩

theorem beginRemove_cases :
    (∃ answer, beginRemove config c s = (.inl answer, s)) ∨
      ∃ intent newOperation account,
        beginRemove config c s = (.inr (intent, newOperation), { s with account }) ∧
          Taken c s account intent := by
  unfold beginRemove
  dsimp only
  split
  · exact Or.inl ⟨_, rfl⟩
  split
  · exact Or.inl ⟨_, rfl⟩
  split
  · exact Or.inl ⟨_, rfl⟩
  rename_i hfingerprint
  split
  · exact Or.inl ⟨_, rfl⟩
  split
  · exact Or.inl ⟨_, rfl⟩
  refine Or.inr ⟨_, _, _, rfl, ?_⟩
  by_cases hnew : s.account.revision ≠ c.revision ∨ s.account.lifecycle ≠ .removing
  · rw [if_pos hnew]
    exact ⟨rfl, rfl, rfl, rfl, rfl, rfl, rfl, rfl⟩
  · -- the operation is resumed: its fingerprint is the one of the command
    have hsame : (s.account.revisionFingerprint <|> some (c.fingerprint false)) =
        some (c.fingerprint false) := by
      cases hold : s.account.revisionFingerprint with
      | none => rfl
      | some fingerprint =>
        have hrevision : s.account.revision = c.revision := by
          by_contra hne
          exact hnew (Or.inl hne)
        have heq : s.account.revisionFingerprint = some (c.fingerprint false) := by
          by_contra hne
          exact hfingerprint ⟨⟨hrevision, by rw [hold]; simp⟩, hne⟩
        rw [← hold, heq]
        rfl
    rw [if_neg hnew]
    exact ⟨rfl, rfl, rfl, hsame, hsame, rfl, rfl, rfl⟩

/-- What `logout` makes of the account. -/
structure TakenLogout (c : AccountCommand) (s : World) (newOperation : Bool)
    (account : AccountState) : Prop where
  busy : account.busy = true
  generation : account.authorizationGeneration =
    c.authorizationGeneration.getD s.account.authorizationGeneration
  lifecycle : account.lifecycle = .logoutPending
  operationId : account.operationId = c.logoutOperationId
  fingerprint : account.revisionFingerprint = some (c.fingerprint true)
  clientId : account.clientId = s.account.clientId
  closed : account.closed = s.account.closed
  closing : account.closing = s.account.closing
  recorded : newOperation = true → account.operationPhase = .intent
  resumed : newOperation = false → s.account.lifecycle = .logoutPending ∧
    s.account.operationId = c.logoutOperationId ∧
    (s.account.revisionFingerprint = none ∨
      s.account.revisionFingerprint = some (c.fingerprint true)) ∧
    (account.operationPhase = s.account.operationPhase ∨ account.operationPhase = .intent)

def World.loggingOut (s : World) (c : AccountCommand) (newOperation : Bool)
    (account : AccountState) : World :=
  { s with
    account
    logouts := if newOperation then s.logouts ++ [.recorded c.logoutOperationId] else s.logouts }

theorem beginLogout_cases :
    (∃ code status, beginLogout c s = (.inl (.failed code status), s)) ∨
      ∃ newOperation account, beginLogout c s =
        (.inr newOperation, s.loggingOut c newOperation account) ∧
          TakenLogout c s newOperation account := by
  unfold beginLogout
  dsimp only
  split
  · exact Or.inl ⟨_, _, rfl⟩
  split
  · exact Or.inl ⟨_, _, rfl⟩
  rename_i hfingerprint
  split
  · exact Or.inl ⟨_, _, rfl⟩
  by_cases hresuming : s.account.revision = c.revision ∧ s.account.lifecycle = .logoutPending ∧
      s.account.operationId = c.logoutOperationId
  · -- the fingerprint is the one of the command
    have hsame : s.account.revisionFingerprint = none ∨
        s.account.revisionFingerprint = some (c.fingerprint true) := by
      by_contra hne
      rw [not_or] at hne
      exact hfingerprint ⟨hresuming.1, hne.1, hne.2⟩
    rw [decide_eq_true hresuming, if_pos hresuming, if_pos hresuming]
    refine Or.inr ⟨false, _, rfl, ?_⟩
    refine ⟨rfl, rfl, hresuming.2.1, hresuming.2.2, ?_, rfl, rfl, rfl, nofun, fun _ => ?_⟩
    · rcases hsame with hnone | hsome
      · simp [hnone]
      · simp [hsome]
    · refine ⟨hresuming.2.1, hresuming.2.2, hsame, ?_⟩
      split
      · exact Or.inr rfl
      · exact Or.inl rfl
  · rw [decide_eq_false hresuming, if_neg hresuming, if_neg hresuming]
    refine Or.inr ⟨true, _, rfl, ?_⟩
    exact ⟨rfl, rfl, rfl, rfl, rfl, rfl, rfl, rfl, fun _ => rfl, nofun⟩

end Taken

section Walks

/-- A step that is about the files, or about the phase of the operation. -/
def Tame (s s' : World) : Prop :=
  ∃ directory orphan operationPhase,
    s' = { s with directory, orphan, account := { s.account with operationPhase } }

/-- What the last critical sections leave of an account, which they give free. -/
structure Freed (account account' : AccountState) : Prop where
  busy : account'.busy = false
  generation : account'.authorizationGeneration = account.authorizationGeneration
  fingerprint : account'.revisionFingerprint = account.revisionFingerprint
  clientId : account'.clientId = account.clientId
  closed : account'.closed = account.closed
  closing : account'.closing = account.closing

/-- How the parts of commands keep what holds while one is under way, and what holds of a manifest that
is still to be written. -/
structure Tends (d : Discipline) (fingerprint : Fingerprint) (P : World → Prop)
    (W : AccountManifest → World → Prop) : Prop where
  underway : ∀ {s}, P s → Underway d s
  rely : ∀ {tag s s'}, P s → d.contract.rely tag s s' → P s'
  held : ∀ {manifest s s'}, W manifest s → d.contract.rely (.holding manifest) s s' → W manifest s'
  tame : ∀ {s s'}, P s → Tame s s' → d.rel s s' ∧ P s'
  kept : ∀ {manifest s s' operationPhase}, W manifest s → Tame s s' →
    W { manifest with operationPhase } s'
  write : ∀ {manifest s}, P s → W manifest s →
    Meets d.contract (fun _ s => P s ∧ W manifest s) (fun _ => P) (write manifest) s
  writable : ∀ {manifest : AccountManifest} {s : World}, P s →
    manifest.authorizationGeneration = s.account.authorizationGeneration →
    manifest.contentHash = s.account.revisionFingerprint ∨
      manifest.contentHash = some fingerprint → W manifest s
  freed : ∀ {s account}, P s → Freed s.account account →
    d.inv { s with account } ∧ d.rel s { s with account }

namespace Tends

variable {config : Config} {d : Discipline} {fingerprint : Fingerprint} {P : World → Prop}
variable {W : AccountManifest → World → Prop} {command : Command} {s : World} {α : Type}
variable {fails : ErrorCode → World → Prop} {manifest : AccountManifest}
variable (h : Tends d fingerprint P W) (hends : ∀ result s, d.ends command result s) (hs : P s)
include h hs

theorem reading {f : World → α} {post : α → World → Prop} (hpost : ∀ s, P s → post (f s) s) :
    Meets d.contract post fails (critical fun s => (f s, s)) s :=
  meets_critical (h.underway hs) fun s' h' hrely => ⟨h'.inv, d.rel_refl s', hpost s' (h.rely hs hrely)⟩

theorem steps {part : Cmd α} (hpart : part.Every Tame) :
    d.Keeps P part s := by
  refine hpart.meets ?_ (fun _ _ _ hrely hs => h.rely hs hrely) ?_ hs
  · exact fun s hs => ⟨(h.underway hs).busy, (h.underway hs).known⟩
  · intro s s' hs htame
    obtain ⟨hrel, hs'⟩ := h.tame hs htame
    exact ⟨⟨(h.underway hs').inv, hrel⟩, hs'⟩

theorem files {f : World → World} (hf : ∀ s, Tame s (f s)) (hw : W manifest s) :
    Meets d.contract (fun _ s => P s ∧ W manifest s) (fun _ => P) (files (.holding manifest) f) s := by
  refine ⟨⟨(h.underway hs).busy, (h.underway hs).known⟩, fun s' hrely reply _ => ?_⟩
  have hs' := h.rely hs hrely
  obtain ⟨hrel, hdone⟩ := h.tame hs' (hf s')
  cases reply with
  | threw code => exact ⟨⟨(h.underway hs').inv, d.rel_refl s'⟩, hs'⟩
  | _ => exact ⟨⟨(h.underway hdone).inv, hrel⟩, hdone, h.kept (h.held hw hrely) (hf s')⟩

omit hs in
include hends in
theorem giveUp {post : α → World → Prop} (code : ErrorCode) (s : World) (hs : P s) :
    Meets d.contract post (fun code => d.Ended command (.error code))
      (giveUp code : Cmd α) s := by
  refine meets_bind.mpr (meets_critical (h.underway hs) fun s' _ hrely => ?_)
  have hfreed : Freed s'.account { s'.account with busy := false } :=
    ⟨rfl, rfl, rfl, rfl, rfl, rfl⟩
  obtain ⟨hinv, hrel⟩ := h.freed (h.rely hs hrely) hfreed
  exact ⟨hinv, hrel, rfl, hends _ _⟩

include hends in
theorem finish {f : World → Answer × World} {account : World → AccountState}
    (hf : ∀ s, (f s).2 = { s with account := account s })
    (hfreed : ∀ s, Freed s.account (account s)) :
    Meets d.contract (fun answer => d.Ended command (.ok answer)) fails
      (critical f) s := by
  refine meets_critical (h.underway hs) fun s' _ hrely => ?_
  rw [hf]
  obtain ⟨hinv, hrel⟩ := h.freed (h.rely hs hrely) (hfreed s')
  exact ⟨hinv, hrel, (hfreed s').busy, hends _ _⟩

end Tends

/-- How the commands that take the account keep what holds while they are under way. -/
structure Takes (config : Config) (d : Discipline) (c : AccountCommand) (P : World → Prop)
    (W : AccountManifest → World → Prop) : Prop extends Tends d (c.fingerprint false) P W where
  madeUp : ∀ {s}, d.inv s → s.known = false → s.manifestError = none →
    d.inv (s.madeUp config c) ∧ d.rel s (s.madeUp config c)
  taken : ∀ {s account manifest}, d.inv s → s.known = true →
    checkAccount config s.account c = .ok () → Taken c s account manifest →
      d.rel s { s with account } ∧ P { s with account } ∧ W manifest { s with account }
  activate : ∀ {s}, P s → d.Keeps P (activate config) s
  applyProxy : ∀ {s}, P s → d.Keeps P (applyProxy config) s

namespace Takes

variable {config : Config} {d : Discipline} {c : AccountCommand} {P P' : World → Prop}
variable {W : AccountManifest → World → Prop} {s : World}
variable (h : Takes config d c P W) (hinv : d.inv s) (hfree : s.account.busy = false)
include h hinv hfree

theorem reconcile (hends : ∀ result s, d.ends (.reconcile c) result s)
    (hclose : ∀ {s}, P s → d.Keeps P (closeAccount false) s) :
    Begins d (.reconcile c) ((Command.reconcile c).program config) s := by
  refine begins_entering (fun _ => rfl) hinv hfree (fun _ => hends _) (h.madeUp hinv) ?_
  intro s hinv _ hknown hcheck
  rcases beginReconcile_cases c with ⟨answer, heq⟩ | ⟨plan, account, heq, htaken⟩
  · exact Or.inl ⟨answer, heq, hends _ _⟩
  obtain ⟨hrel, hs, hw⟩ := h.taken hinv hknown hcheck htaken
  refine Or.inr ⟨plan, by rw [heq], ?_⟩
  rw [heq]
  refine ⟨(h.underway hs).inv, hrel, meets_tryCatch.mpr ?_⟩
  have hfails : ∀ code s, P s → Meets d.contract
      (fun answer => d.Ended (.reconcile c) (.ok answer))
      (fun code => d.Ended (.reconcile c) (.error code))
      (critical (failReconcile code)) s :=
    fun code s hs => h.finish hends hs (fun _ => rfl) fun _ => ⟨rfl, rfl, rfl, rfl, rfl, rfl⟩
  refine meets_seq (h.files hs (fun _ => ⟨_, _, _, rfl⟩) hw) hfails fun _ s hs => ?_
  refine meets_seq (h.write hs.1 hs.2) hfails fun _ s hs => ?_
  refine meets_seq (h.steps hs.1 (every_critical fun _ => ⟨_, _, _, rfl⟩)) hfails fun _ s hs => ?_
  refine meets_seq (meets_onlyIf (hclose hs) hs) hfails fun _ s hs => ?_
  refine meets_seq (h.activate hs) hfails fun _ s hs => ?_
  refine meets_seq (meets_onlyIf (h.applyProxy hs) hs) hfails fun _ s hs => ?_
  refine meets_bind.mpr (h.reading hs fun s hs => ?_)
  refine meets_seq (h.write hs (h.writable hs rfl (.inr htaken.contentHash))) hfails
    fun _ s hs => ?_
  exact h.finish hends hs.1 (fun _ => rfl) fun _ => ⟨rfl, rfl, rfl, rfl, rfl, rfl⟩

theorem updateProxy (hends : ∀ result s, d.ends (.updateProxy c) result s) :
    Begins d (.updateProxy c) ((Command.updateProxy c).program config) s := by
  refine begins_entering (fun _ => rfl) hinv hfree (fun _ => hends _) (h.madeUp hinv) ?_
  intro s hinv _ hknown hcheck
  rcases beginUpdateProxy_cases c with ⟨answer, heq⟩ | ⟨intent, account, heq, htaken⟩
  · exact Or.inl ⟨answer, heq, hends _ _⟩
  obtain ⟨hrel, hs, hw⟩ := h.taken hinv hknown hcheck htaken
  refine Or.inr ⟨intent, by rw [heq], ?_⟩
  rw [heq]
  refine ⟨(h.underway hs).inv, hrel, meets_tryCatch.mpr ?_⟩
  refine meets_seq (h.write hs hw) (h.giveUp hends) fun _ s hs => ?_
  refine meets_bind.mpr (h.reading hs.1 fun s hs => ?_)
  have hpart : ∀ s', P s' → d.Keeps P
      (if decide (s.account.clientId = 0 ∨ s.account.closed = true) = true then
        Runtime.activate config else Runtime.applyProxy config) s' := by
    intro s' hs'
    split
    · exact h.activate hs'
    · exact h.applyProxy hs'
  refine meets_seq (hpart s hs) (h.giveUp hends) fun _ s hs => ?_
  refine meets_bind.mpr (h.reading hs fun s hs => ?_)
  refine meets_seq (h.write hs (h.writable hs rfl (.inr htaken.contentHash))) (h.giveUp hends)
    fun _ s hs => ?_
  exact h.finish hends hs.1 (fun _ => rfl) fun _ => ⟨rfl, rfl, rfl, rfl, rfl, rfl⟩

/-- Once it is closed, an account that is removed may keep more. -/
theorem remove (hends : ∀ result s, d.ends (.remove c) result s)
    (hclosed : Tends d (c.fingerprint false) P' W)
    (hclose : ∀ {s}, P s → Meets d.contract (fun _ => P') (fun _ => P) (closeAccount true) s)
    (hlast : ∀ {s}, P' s → d.inv (finishRemove s).2 ∧ d.rel s (finishRemove s).2) :
    Begins d (.remove c) ((Command.remove c).program config) s := by
  refine begins_enterRemove (fun _ => rfl) hinv hfree hends ?_
  refine begins_entering (fun _ => rfl) hinv hfree (fun _ => hends _) (h.madeUp hinv) ?_
  intro s hinv _ hknown hcheck
  rcases beginRemove_cases c with ⟨answer, heq⟩ | ⟨intent, newOperation, account, heq, htaken⟩
  · exact Or.inl ⟨answer, heq, hends _ _⟩
  obtain ⟨hrel, hs, hw⟩ := h.taken hinv hknown hcheck htaken
  refine Or.inr ⟨(intent, newOperation), by rw [heq], ?_⟩
  rw [heq]
  refine ⟨(h.underway hs).inv, hrel, meets_tryCatch.mpr ?_⟩
  refine meets_seq (meets_onlyIf (h.write hs hw) ⟨hs, hw⟩) (h.giveUp hends) fun _ s hs => ?_
  -- the phase changes with the intent at hand
  refine meets_bind.mpr ⟨⟨(h.underway hs.1).busy, (h.underway hs.1).known⟩, fun s' hrely _ _ => ?_⟩
  have htame : Tame s' { s' with account := { s'.account with operationPhase := .closing } } :=
    ⟨_, _, _, rfl⟩
  obtain ⟨hrel, hs'⟩ := h.tame (h.rely hs.1 hrely) htame
  refine ⟨⟨(h.underway hs').inv, hrel⟩, ?_⟩
  refine meets_seq (h.write hs' (h.kept (h.held hs.2 hrely) htame)) (h.giveUp hends)
    fun _ s hs => ?_
  refine meets_seq (hclose hs.1) (h.giveUp hends) fun _ s hs => ?_
  refine meets_seq (hclosed.steps hs ?_) (hclosed.giveUp hends) fun _ s hs => ?_
  · exact every_files _ (fun _ => ⟨_, _, _, rfl⟩) fun _ => ⟨_, _, _, rfl⟩
  refine meets_bind.mpr (hclosed.reading hs fun s hs => ?_)
  refine meets_seq (hclosed.write hs (hclosed.writable hs rfl (.inl rfl))) (hclosed.giveUp hends)
    fun _ s hs => ?_
  refine meets_critical (hclosed.underway hs.1) fun s' _ hrely => ?_
  obtain ⟨hinv, hrel⟩ := hlast (hclosed.rely hs.1 hrely)
  exact ⟨hinv, hrel, rfl, hends _ _⟩

end Takes

/-- Of the commands to sign in, it is enough what taking the account and giving it free keep. -/
theorem begins_signIn {config : Config} {d : Discipline} {c : AccountCommand} {s : World}
    {valid : Bool} (hinv : d.inv s) (hfree : s.account.busy = false)
    (hends : ∀ result s, d.ends (.authorization c valid) result s)
    (hmadeUp : ∀ {s}, d.inv s → s.known = false → s.manifestError = none →
      d.inv (s.madeUp config c) ∧ d.rel s (s.madeUp config c))
    (htaken : ∀ {s}, d.inv s → s.known = true →
      s.account.authorizationGeneration ≤
        c.authorizationGeneration.getD s.account.authorizationGeneration →
      d.inv (beginAuthorization c s).2 ∧ d.rel s (beginAuthorization c s).2)
    (hrequest : ∀ {s} (client : ClientId), Underway d s →
      d.Keeps (Underway d) (request client .authorize) s)
    (hfreed : ∀ {s}, Underway d s →
      d.inv { s with account := { s.account with busy := false } } ∧
        d.rel s { s with account := { s.account with busy := false } }) :
    Begins d (.authorization c valid) ((Command.authorization c valid).program config) s := by
  refine begins_entering (fun _ => rfl) hinv hfree (fun _ => hends _) (hmadeUp hinv) ?_
  intro s hinv hfree hknown hcheck
  cases valid with
  | false => exact Or.inl ⟨_, rfl, hends _ _⟩
  | true =>
    by_cases hreconciled : s.account.reconciled = true
    · refine Or.inr ⟨s.account.clientId, by simp [beginAuthorization, hreconciled, hfree], ?_⟩
      obtain ⟨hinv, hrel⟩ := htaken hinv hknown (le_of_checkAccount hcheck)
      have hunderway : Underway d (beginAuthorization c s).2 :=
        ⟨hinv, by simp [beginAuthorization, hreconciled, hfree],
          by simpa [beginAuthorization, hreconciled, hfree] using hknown⟩
      rw [if_pos rfl]
      refine ⟨hinv, hrel, meets_bind.mpr (meets_tryCatch.mpr ?_)⟩
      refine (hrequest _ hunderway).mono (fun response s hs => ?_) fun code s hs => ?_
      · refine meets_critical hs fun s' hs' _ => ?_
        exact ⟨(hfreed hs').1, (hfreed hs').2, rfl, hends _ _⟩
      · refine meets_bind.mpr (meets_critical hs fun s' hs' _ => ?_)
        exact ⟨(hfreed hs').1, (hfreed hs').2, rfl, hends _ _⟩
    · refine Or.inl ⟨.failed .authorizationInvalidState 409, ?_, hends _ _⟩
      simp [beginAuthorization, hreconciled]

/-- Of a logout, where what holds while it is under way does not depend on what became of it. -/
theorem Tends.logout {config : Config} {d : Discipline} {c : AccountCommand} {P : World → Prop}
    {W : AccountManifest → World → Prop} {s : World} (h : Tends d (c.fingerprint true) P W)
    (hinv : d.inv s) (hfree : s.account.busy = false)
    (hends : ∀ result s, d.ends (.logout c) result s)
    (hmadeUp : ∀ {s}, d.inv s → s.known = false → s.manifestError = none →
      d.inv (s.madeUp config c) ∧ d.rel s (s.madeUp config c))
    (htaken : ∀ {s account newOperation}, d.inv s → s.known = true →
      checkAccount config s.account c = .ok () → TakenLogout c s newOperation account →
        d.rel s (s.loggingOut c newOperation account) ∧ P (s.loggingOut c newOperation account))
    (hactivate : ∀ {s}, P s → d.Keeps P (activate config) s)
    (hpersist : ∀ {s} phase lifecycle operation, P s →
      d.Keeps P (persist config phase lifecycle operation) s)
    (hrequest : ∀ {s} client function, P s →
      d.Keeps P (request client function) s) :
    Begins d (.logout c) ((Command.logout c).program config) s := by
  refine begins_entering (fun _ => rfl) hinv hfree (fun _ => hends _) (hmadeUp hinv) ?_
  intro s hinv _ hknown hcheck
  rcases beginLogout_cases c with ⟨code, status, heq⟩ | ⟨newOperation, account, heq, htaken'⟩
  · exact Or.inl ⟨_, heq, hends _ _⟩
  obtain ⟨hrel, hs⟩ := htaken hinv hknown hcheck htaken'
  refine Or.inr ⟨newOperation, by rw [heq], ?_⟩
  rw [heq]
  refine ⟨(h.underway hs).inv, hrel, meets_tryCatch.mpr ?_⟩
  have hconfirmed : ∀ s, P s → Meets d.contract
      (fun answer => d.Ended (.logout c) (.ok answer)) (fun _ => P)
      (confirmedLogout config) s := by
    intro s hs
    refine meets_seq (hactivate hs) (fun _ _ => id) fun _ s hs => ?_
    refine meets_seq (hpersist _ _ _ hs) (fun _ _ => id) fun _ s hs => ?_
    exact h.finish hends hs (fun _ => rfl) fun _ => ⟨rfl, rfl, rfl, rfl, rfl, rfl⟩
  have hexecute : ∀ s, P s → Meets d.contract
      (fun answer => d.Ended (.logout c) (.ok answer)) (fun _ => P)
      (executeLogout config c.logoutOperationId) s := by
    intro s hs
    refine meets_seq (hactivate hs) (fun _ _ => id) fun _ s hs => ?_
    refine meets_seq (hpersist _ _ _ hs) (fun _ _ => id) fun _ s hs => ?_
    refine meets_bind.mpr (h.reading hs fun s hs => ?_)
    refine meets_seq (hrequest _ _ hs) (fun _ _ => id) fun response s hs => ?_
    exact h.finish hends hs (fun _ => rfl) fun _ => ⟨rfl, rfl, rfl, rfl, rfl, rfl⟩
  refine meets_seq (meets_onlyIf (hpersist _ _ _ hs) hs) (h.giveUp hends) fun _ s hs => ?_
  refine meets_bind.mpr (h.reading hs fun s hs => ?_)
  split
  · refine meets_seq (hpersist _ _ _ hs) (h.giveUp hends) fun _ s hs => ?_
    exact (hconfirmed s hs).mono (fun _ _ => id) (h.giveUp hends)
  split
  · exact (hconfirmed s hs).mono (fun _ _ => id) (h.giveUp hends)
  · exact (hexecute s hs).mono (fun _ _ => id) (h.giveUp hends)

end Walks

end Runtime
