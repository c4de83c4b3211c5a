import TeleBezel.Runtime.OneClient

/-!
# The clients of all accounts

The accounts of the runtime share the numbers of clients and `client_accounts_`, by which an update of
TDLib finds its account. A client is in it from when it is created until it reports that it is closed.
-/

open List

namespace Runtime

open Program Transition

def Adds (s s' : World) : Prop :=
  ClientsOrdered s → s'.clients = s.clients ∧ s'.nextClient = s.nextClient ∨
    s'.clients = s.nextClient :: s.clients ∧ s'.nextClient = s.nextClient + 1

section Adds

variable {config : Config} {s s' : World} {α : Type}

theorem Adds.refl (s : World) : Adds s s := fun _ => Or.inl ⟨rfl, rfl⟩

theorem SameClients.adds (h : SameClients s s') : Adds s s' := fun _ => Or.inl ⟨h.clients, h.next⟩

theorem adds_mild : Mild Adds where
  refl := Adds.refl
  transmitted _ _ := SameClients.adds rfl
  proxy _ _ := SameClients.adds rfl
  credentials _ _ _ := SameClients.adds rfl

theorem adds_write (manifest : AccountManifest) : (write manifest).Every Adds := by
  intro s reply
  cases reply with
  | threw code => exact ⟨Adds.refl s, trivial⟩
  | _ => exact ⟨SameClients.adds rfl, trivial⟩

theorem adds_persist (phase : Phase) (lifecycle : Lifecycle) (operation : Option Uuid) :
    (persist config phase lifecycle operation).Every Adds := by
  refine Prog.Every.bind ?_ fun manifest => adds_write manifest
  exact fun s _ => ⟨SameClients.adds rfl, trivial⟩

theorem adds_request (client : ClientId) (function : ClientFunction) :
    (request client function).Every Adds :=
  every_request Adds.refl (fun _ _ => SameClients.adds rfl)
    (fun _ => SameClients.adds rfl) client function

theorem adds_directory (tag : Point) (there : Bool) :
    (files tag fun s => { s with directory := there }).Every Adds :=
  every_files tag Adds.refl fun _ => SameClients.adds rfl

theorem adds_section {f : World → α × World} (hsame : ∀ s, SameClients s (f s).2) :
    (critical f).Every Adds := every_critical fun s => (hsame s).adds

theorem adds_activate : (activate config).Every Adds := by
  refine (every_criticalOr fun s => ?_).bind fun plan => ?_
  · dsimp only
    split
    · exact Adds.refl s
    split
    · exact Adds.refl s
    · exact Adds.refl s
  · cases plan with
    | none => exact every_pure ()
    | some ids =>
      refine (every_onlyIf (every_throw _)).bind fun _ => ?_
      refine (every_files .files Adds.refl Adds.refl).bind fun _ => ?_
      have hcreate : createClient.Every Adds := every_critical fun s _ => Or.inr ⟨rfl, rfl⟩
      refine hcreate.bind fun client => ?_
      refine (every_setUpClient config adds_mild client ids.1 ids.2).tryCatch ?_
      exact every_abandonClient adds_mild client fun s _ _ => Or.inl ⟨rfl, rfl⟩

theorem adds_closeAccount (destroy : Bool) : (closeAccount destroy).Every Adds := by
  refine every_closeAccount adds_mild (fun s client hclosed h => Or.inl ⟨?_, rfl⟩) destroy
  rw [h.clients_eq_nil (h.idle_of_closed hclosed), filter_nil]

variable (c : AccountCommand)

theorem adds_entering {f : World → (Answer ⊕ α) × World} (hf : ∀ s, SameClients s (f s).2) :
    (criticalOr (entering config c f)).Every Adds := by
  refine every_criticalOr fun s => ?_
  have hvalidated : s.clients = (validatedAccount config s c).2.clients ∧
      s.nextClient = (validatedAccount config s c).2.nextClient := by
    obtain ⟨s', hs', hcases⟩ := validatedAccount_cases config s c
    have heq : (validatedAccount config s c).2 = s' := by
      rcases hcases with ⟨code, heq⟩ | ⟨-, -, heq⟩
      · rw [heq]
      · rw [heq]
    rw [heq]
    rcases hs' with rfl | ⟨-, -, rfl⟩
    · exact ⟨rfl, rfl⟩
    · exact ⟨rfl, rfl⟩
  unfold entering
  rcases hresult : validatedAccount config s c with ⟨result, s'⟩
  rw [hresult] at hvalidated
  cases result with
  | error code => exact fun _ => Or.inl ⟨hvalidated.1.symm, hvalidated.2.symm⟩
  | ok value =>
    exact fun _ => Or.inl ⟨(hf s').clients.trans hvalidated.1.symm,
      (hf s').next.trans hvalidated.2.symm⟩

theorem adds_enterRemove : (criticalOr (enterRemove config c)).Every Adds := by
  refine every_criticalOr fun s => ?_
  unfold enterRemove
  dsimp only
  split
  · split
    · exact Adds.refl s
    · exact Adds.refl s
  · exact ((adds_entering c (sameClients_beginRemove c)) s .done).1

theorem adds_giveUp (code : ErrorCode) : (giveUp code : Cmd α).Every Adds :=
  Prog.Every.bind (adds_section fun _ => rfl) fun _ => every_throw code

theorem adds_reconcile : (reconcile config c).Every Adds := by
  refine (adds_entering c (sameClients_beginReconcile c)).bind fun taken => ?_
  cases taken with
  | inl answer => exact every_pure answer
  | inr plan =>
    refine Prog.Every.tryCatch ?_ fun _ => adds_section fun _ => rfl
    refine (adds_directory _ _).bind fun _ => ?_
    refine (adds_write plan.manifest).bind fun _ => ?_
    refine Prog.Every.bind (adds_section fun _ => rfl) fun _ => ?_
    refine (every_onlyIf (adds_closeAccount false)).bind fun _ => ?_
    refine adds_activate.bind fun _ => ?_
    refine (every_onlyIf (every_applyProxy config adds_mild)).bind fun _ => ?_
    refine Prog.Every.bind (adds_section fun _ => rfl) fun completed => ?_
    refine (adds_write completed).bind fun _ => ?_
    exact adds_section fun _ => rfl

theorem adds_confirmedLogout : (confirmedLogout config).Every Adds := by
  refine adds_activate.bind fun _ => ?_
  refine (adds_persist _ _ _).bind fun _ => ?_
  exact adds_section fun _ => rfl

theorem adds_executeLogout (operation : Option Uuid) :
    (executeLogout config operation).Every Adds := by
  refine adds_activate.bind fun _ => ?_
  refine (adds_persist _ _ _).bind fun _ => ?_
  refine Prog.Every.bind (adds_section fun _ => rfl) fun client => ?_
  refine (adds_request client .logOut).bind fun response => ?_
  exact adds_section fun _ => rfl

theorem adds_logout : (logout config c).Every Adds := by
  refine (adds_entering c (sameClients_beginLogout c)).bind fun taken => ?_
  cases taken with
  | inl answer => exact every_pure answer
  | inr newOperation =>
    refine Prog.Every.tryCatch ?_ fun code => adds_giveUp code
    refine (every_onlyIf (adds_persist _ _ _)).bind fun _ => ?_
    refine Prog.Every.bind (adds_section fun _ => rfl) fun state => ?_
    split
    · exact (adds_persist _ _ _).bind fun _ => adds_confirmedLogout
    split
    · exact adds_confirmedLogout
    · exact adds_executeLogout _

theorem adds_updateProxy : (updateProxy config c).Every Adds := by
  refine (adds_entering c (sameClients_beginUpdateProxy c)).bind fun taken => ?_
  cases taken with
  | inl answer => exact every_pure answer
  | inr intent =>
    refine Prog.Every.tryCatch ?_ fun code => adds_giveUp code
    refine (adds_write intent).bind fun _ => ?_
    refine Prog.Every.bind (adds_section fun _ => rfl) fun needsActivation => ?_
    have hpart : (if needsActivation = true then activate config else applyProxy config).Every Adds := by
      split
      · exact adds_activate
      · exact every_applyProxy config adds_mild
    refine hpart.bind fun _ => ?_
    refine Prog.Every.bind (adds_section fun _ => rfl) fun completed => ?_
    refine (adds_write completed).bind fun _ => ?_
    exact adds_section fun _ => rfl

theorem adds_remove : (remove config c).Every Adds := by
  refine (adds_enterRemove c).bind fun taken => ?_
  rcases taken with answer | ⟨intent, newOperation⟩
  · exact every_pure answer
  · refine Prog.Every.tryCatch ?_ fun code => adds_giveUp code
    refine (every_onlyIf (adds_write intent)).bind fun _ => ?_
    refine Prog.Every.bind (p := (Prog.act (.holding intent)
      (fun s _ => { s with account := { s.account with operationPhase := .closing } })
      fun _ _ => .ret { intent with operationPhase := .closing } : Cmd AccountManifest)) ?_
      fun closing => ?_
    · exact fun s _ => ⟨SameClients.adds rfl, trivial⟩
    refine (adds_write closing).bind fun _ => ?_
    refine (adds_closeAccount true).bind fun _ => ?_
    refine (adds_directory _ _).bind fun _ => ?_
    refine Prog.Every.bind (adds_section fun _ => rfl) fun tombstone => ?_
    refine (adds_write tombstone).bind fun _ => ?_
    -- the account is closed, which leaves the list of clients
    exact every_critical fun s _ => Or.inl ⟨rfl, rfl⟩

theorem adds_authorizationAction (valid : Bool) :
    (authorizationAction config c valid).Every Adds := by
  refine (adds_entering c fun s => ?_).bind fun taken => ?_
  · cases valid with
    | false => exact rfl
    | true => exact sameClients_beginAuthorization c s
  cases taken with
  | inl answer => exact every_pure answer
  | inr client =>
    refine ((adds_request client .authorize).tryCatch fun code => adds_giveUp code).bind
      fun response => ?_
    exact adds_section fun _ => rfl

theorem adds_program (command : Command) : (command.program config).Every Adds := by
  cases command with
  | reconcile c => exact adds_reconcile c
  | logout c => exact adds_logout c
  | updateProxy c => exact adds_updateProxy c
  | remove c => exact adds_remove c
  | authorization c valid => exact adds_authorizationAction c valid

end Adds

namespace Engine

variable {config : Config} {s : Engine}

def Adding (s : Engine) : Prop := ∀ entry ∈ s.running, entry.2.Every Adds

theorem Adding.resume (h : s.Adding) (command : Command) {program : Cmd Answer}
    (hprogram : program.Every Adds) : (s.resume command program).Adding := by
  cases program with
  | ret answer => exact h
  | raise code => exact h
  | act tag effect next =>
    intro entry hentry
    rcases mem_cons.1 hentry with rfl | hold
    · exact hprogram
    · exact h entry hold

theorem Adding.take (h : s.Adding) (command : Command) (reply : Reply) {program : Cmd Answer}
    (hprogram : program.Every Adds) :
    (s.take command reply program).Adding ∧ Adds s.world (s.take command reply program).world := by
  cases program with
  | ret answer | raise code => exact ⟨h, Adds.refl s.world⟩
  | act tag effect next =>
    obtain ⟨hadds, hnext⟩ := hprogram s.world reply
    refine ⟨Adding.resume (s := { s with world := effect s.world reply }) h command hnext, ?_⟩
    change Adds s.world ({ s with world := effect s.world reply }.resume command _).world
    rw [resume_world]
    exact hadds

theorem Adding.step (h : s.Adding) (event : EngineEvent) : (s.step config event).Adding := by
  cases event with
  | call command => exact (h.take command .done (adds_program command)).1
  | advance index reply =>
    unfold Engine.step
    dsimp only
    split
    · rename_i command program hentry
      have hprogram : program.Every Adds := h _ (mem_of_getElem? hentry)
      have hrest : Adding { s with running := s.running.eraseIdx index } :=
        fun entry hmem => h entry (mem_of_mem_eraseIdx hmem)
      exact (hrest.take command reply hprogram).1
    · exact h
  | restart readable => exact fun entry hentry => absurd hentry not_mem_nil
  | _ => exact h

theorem Adding.adds (h : s.Adding) {event : EngineEvent}
    (hevent : (∃ command, event = .call command) ∨ ∃ index reply, event = .advance index reply) :
    Adds s.world (s.step config event).world := by
  rcases hevent with ⟨command, rfl⟩ | ⟨index, reply, rfl⟩
  · exact (h.take command .done (adds_program command)).2
  · unfold Engine.step
    dsimp only
    split
    · rename_i command program hentry
      have hprogram : program.Every Adds := h _ (mem_of_getElem? hentry)
      have hrest : Adding { s with running := s.running.eraseIdx index } :=
        fun entry hmem => h entry (mem_of_mem_eraseIdx hmem)
      exact (hrest.take command reply hprogram).2
    · exact Adds.refl s.world

end Engine

theorem owned_number {s : Engine} (h : Owned oneClient s) {next : ClientId}
    (hle : s.world.nextClient ≤ next) :
    Owned oneClient { s with world := { s.world with nextClient := next } } := by
  have hinv : ClientsOrdered { s.world with nextClient := next } := by
    refine ⟨fun client hclient => ?_, Nat.lt_of_lt_of_le h.inv.next hle, h.inv.current, h.inv.listed,
      h.inv.live, h.inv.closing, h.inv.known⟩
    obtain ⟨hpos, hlt⟩ := h.inv.below client hclient
    exact ⟨hpos, Nat.lt_of_lt_of_le hlt hle⟩
  refine ⟨hinv, ?_, fun _ _ => trivial⟩
  rcases h.running with ⟨hnone, hfree⟩ | ⟨command, tag, effect, next, hone, hruns⟩
  · exact Or.inl ⟨hnone, hfree⟩
  · refine Or.inr ⟨command, tag, effect, next, hone, hruns.stable ?_⟩
    exact ⟨hinv, trivial, rfl, id⟩

/-- The runtime: what it has for each account, and the number of the next client. The last two only
tell what happened since the process started: the clients that were created, each with its account, and
those that reported that they are closed. -/
structure Host where
  engines : Uuid → Engine := fun _ => {}
  nextClient : ClientId := 1
  created : List (ClientId × Uuid) := []
  reported : List ClientId := []

inductive HostEvent
  | call (uuid : Uuid) (command : Command)
  | advance (uuid : Uuid) (index : ℕ) (reply : Reply)
  | pop (uuid : Uuid)
  | persist (uuid : Uuid) (reply : Reply)
  | settle (uuid : Uuid)
  | requeue (uuid : Uuid)
  | authorization (client : ClientId) (state : AuthorizationState)
  | closed (client : ClientId) (cause : Option ClientFunction)
  | stalled (client : ClientId)
  | stop
  | restart (readable : Uuid → Bool)

namespace Host

def engine (s : Host) (uuid : Uuid) : Engine :=
  { s.engines uuid with world := { (s.engines uuid).world with nextClient := s.nextClient } }

def ClientAccounts (s : Host) (client : ClientId) (uuid : Uuid) : Prop :=
  client ∈ (s.engine uuid).world.clients

/-- One account has changed. The numbers that were taken are those of clients that were created. -/
def put (s : Host) (uuid : Uuid) (engine : Engine) : Host where
  engines := Function.update s.engines uuid engine
  nextClient := engine.world.nextClient
  created := (List.range' s.nextClient (engine.world.nextClient - s.nextClient)).map
    (fun client => (client, uuid)) ++ s.created
  reported := s.reported

def start (files : Uuid → World) (readable : Uuid → Bool) : Host where
  engines uuid := { world := (files uuid).restart (readable uuid) }

variable (config : Config)

def act (s : Host) (uuid : Uuid) (event : EngineEvent) : Host :=
  s.put uuid ((s.engine uuid).step config event)

def told (s : Host) (client : ClientId) (event : EngineEvent) (uuid : Uuid) : Engine :=
  if client ∈ (s.engine uuid).world.clients then (s.engine uuid).step config event
  else s.engine uuid

def tell (s : Host) (client : ClientId) (event : EngineEvent) : Host :=
  { s with engines := s.told config client event }

def step (s : Host) : HostEvent → Host
  | .call uuid command => s.act config uuid (.call command)
  | .advance uuid index reply => s.act config uuid (.advance index reply)
  | .pop uuid => s.act config uuid .pop
  | .persist uuid reply => s.act config uuid (.persist reply)
  | .settle uuid => s.act config uuid .settle
  | .requeue uuid => s.act config uuid .requeue
  | .authorization client state => s.tell config client (.authorization client state)
  | .closed client cause =>
    { s.tell config client (.closed client cause) with reported := client :: s.reported }
  | .stalled client => s.tell config client (.stalled client)
  | .stop => { s with engines := fun uuid => (s.engine uuid).step config .stop }
  | .restart readable =>
    { s with
      engines := fun uuid => (s.engine uuid).step config (.restart (readable uuid))
      created := []
      reported := [] }

/-- TDLib reports clients that were created. -/
def Assumes (s : Host) : HostEvent → Prop
  | .closed client _ => client ∈ s.created.map Prod.fst
  | _ => True

instance (s : Host) (event : HostEvent) : Decidable (s.Assumes event) :=
  match event with
  | .closed client _ => inferInstanceAs (Decidable (client ∈ s.created.map Prod.fst))
  | .call _ _ | .advance _ _ _ | .pop _ | .persist _ _ | .settle _ | .requeue _
  | .authorization _ _ | .stalled _ | .stop | .restart _ => inferInstanceAs (Decidable True)

/-- An account has one client, one command and one entry. -/
structure OneClientEach (s : Host) : Prop where
  command : ∀ uuid, (s.engine uuid).running.length ≤ 1
  busy : ∀ uuid, (s.engine uuid).world.account.busy = true ↔ (s.engine uuid).running ≠ []
  /-- Who is in `client_accounts_`. -/
  mapped : ∀ client uuid, s.ClientAccounts client uuid ↔
    (client, uuid) ∈ s.created ∧ client ∉ s.reported
  unique : ∀ {client uuid uuid'}, (client, uuid) ∈ s.created → (client, uuid') ∈ s.created →
    uuid = uuid'
  /-- All clients of an account but one have reported that they are closed. -/
  single : ∀ {client client' uuid}, (client, uuid) ∈ s.created → (client', uuid) ∈ s.created →
    client ≠ client' → client ∈ s.reported ∨ client' ∈ s.reported
  current : ∀ uuid, (s.engine uuid).world.account.clientId ≠ 0 →
    (s.engine uuid).world.account.closed = false →
    s.ClientAccounts (s.engine uuid).world.account.clientId uuid

structure Ordered (s : Host) : Prop where
  owned : ∀ uuid, Owned oneClient (s.engine uuid)
  adding : ∀ uuid, (s.engine uuid).Adding
  below : ∀ {client uuid}, (client, uuid) ∈ s.created → client < s.nextClient
  reported : ∀ client ∈ s.reported, client < s.nextClient
  mapped : ∀ client uuid, client ∈ (s.engine uuid).world.clients ↔
    (client, uuid) ∈ s.created ∧ client ∉ s.reported
  unique : ∀ {client uuid uuid'}, (client, uuid) ∈ s.created → (client, uuid') ∈ s.created →
    uuid = uuid'

variable {config} {s : Host}

theorem engine_put_self (uuid : Uuid) (engine : Engine) : (s.put uuid engine).engine uuid = engine := by
  unfold Host.engine put
  simp

variable {uuid : Uuid}

theorem engine_put_of_ne {other : Uuid} (hne : other ≠ uuid) (engine : Engine) :
    (s.put uuid engine).engine other =
      { s.engine other with
        world := { (s.engine other).world with nextClient := engine.world.nextClient } } := by
  unfold Host.engine put
  simp [hne]

section

variable (h : s.Ordered)
include h

theorem Ordered.each {engines : Uuid → Engine}
    {created : List (ClientId × Uuid)} {reported : List ClientId}
    (howned : ∀ uuid, Owned oneClient (engines uuid)) (hadding : ∀ uuid, (engines uuid).Adding)
    (hnext : ∀ uuid, (engines uuid).world.nextClient = s.nextClient) (hcreated : created ⊆ s.created)
    (hreported : ∀ client ∈ reported, client < s.nextClient)
    (hmapped : ∀ client uuid, client ∈ (engines uuid).world.clients ↔
      (client, uuid) ∈ created ∧ client ∉ reported) :
    Ordered { engines, nextClient := s.nextClient, created, reported } := by
  have hengine : ∀ uuid, engine { engines, nextClient := s.nextClient, created, reported } uuid =
      engines uuid := by
    intro uuid
    unfold engine
    rw [← hnext uuid]
  refine ⟨?_, ?_, fun hmem => h.below (hcreated hmem), hreported, ?_,
    fun hmem hmem' => h.unique (hcreated hmem) (hcreated hmem')⟩
  · intro uuid
    rw [hengine]
    exact howned uuid
  · intro uuid
    rw [hengine]
    exact hadding uuid
  · intro client uuid
    rw [hengine]
    exact hmapped client uuid

theorem Ordered.put_of {engine : Engine}
    (howned : Owned oneClient engine) (hadding : engine.Adding) (fresh : ClientId → Prop)
    (hfresh : ∀ client, fresh client →
      client = s.nextClient ∧ s.nextClient < engine.world.nextClient)
    (hle : s.nextClient ≤ engine.world.nextClient)
    (hclients : ∀ client, client ∈ engine.world.clients ↔
      fresh client ∨ client ∈ (s.engine uuid).world.clients)
    (hcreated : ∀ client other, (client, other) ∈ (s.put uuid engine).created ↔
      fresh client ∧ other = uuid ∨ (client, other) ∈ s.created) :
    (s.put uuid engine).Ordered := by
  refine ⟨fun other => ?_, fun other => ?_, ?_, ?_, fun client other => ?_, ?_⟩
  · by_cases hother : other = uuid
    · rw [hother, engine_put_self]
      exact howned
    · rw [engine_put_of_ne hother]
      exact owned_number (h.owned other) hle
  · by_cases hother : other = uuid
    · rw [hother, engine_put_self]
      exact hadding
    · rw [engine_put_of_ne hother]
      exact h.adding other
  · intro client other hmem
    rcases (hcreated client other).1 hmem with ⟨hnew, -⟩ | hold
    · obtain ⟨rfl, hlt⟩ := hfresh client hnew
      exact hlt
    · exact Nat.lt_of_lt_of_le (h.below hold) hle
  · exact fun client hclient => Nat.lt_of_lt_of_le (h.reported client hclient) hle
  · rw [hcreated]
    by_cases hother : other = uuid
    · rw [hother, engine_put_self, hclients, h.mapped]
      constructor
      · rintro (hnew | ⟨hold, hopen⟩)
        · refine ⟨Or.inl ⟨hnew, rfl⟩, fun hreported => ?_⟩
          have hlt := h.reported client hreported
          rw [(hfresh client hnew).1] at hlt
          exact absurd hlt (Nat.lt_irrefl _)
        · exact ⟨Or.inr hold, hopen⟩
      · rintro ⟨⟨hnew, -⟩ | hold, hopen⟩
        · exact Or.inl hnew
        · exact Or.inr ⟨hold, hopen⟩
    · rw [engine_put_of_ne hother]
      rw [h.mapped]
      constructor
      · exact fun ⟨hold, hopen⟩ => ⟨Or.inr hold, hopen⟩
      · rintro ⟨⟨-, heq⟩ | hold, hopen⟩
        · exact absurd heq hother
        · exact ⟨hold, hopen⟩
  · intro client other other' hmem hmem'
    have hunknown : ∀ other, fresh client → (client, other) ∉ s.created := by
      intro other hnew hold
      have hlt := h.below hold
      rw [(hfresh client hnew).1] at hlt
      exact absurd hlt (Nat.lt_irrefl _)
    rcases (hcreated client other).1 hmem with ⟨hnew, rfl⟩ | hold
    · rcases (hcreated client other').1 hmem' with ⟨-, rfl⟩ | hold'
      · rfl
      · exact absurd hold' (hunknown other' hnew)
    · rcases (hcreated client other').1 hmem' with ⟨hnew, -⟩ | hold'
      · exact absurd hold (hunknown other hnew)
      · exact h.unique hold hold'

theorem Ordered.put {engine : Engine} (howned : Owned oneClient engine)
    (hadding : engine.Adding) (hadds : Adds (s.engine uuid).world engine.world) :
    (s.put uuid engine).Ordered := by
  have hfold : (s.engine uuid).world.nextClient = s.nextClient := rfl
  rcases hadds (h.owned uuid).inv with ⟨hclients, hnext⟩ | ⟨hclients, hnext⟩
  · rw [hfold] at hnext
    refine h.put_of howned hadding (fun _ => False) (fun _ hnew => hnew.elim)
      (Nat.le_of_eq hnext.symm) ?_ ?_
    · intro client
      rw [hclients, false_or]
    · intro client other
      unfold Host.put
      rw [hnext, Nat.sub_self]
      simp
  · rw [hfold] at hnext
    refine h.put_of howned hadding (fun client => client = s.nextClient) ?_
      (hnext ▸ Nat.le_succ _) ?_ ?_
    · rintro client rfl
      exact ⟨rfl, hnext ▸ Nat.lt_succ_self _⟩
    · intro client
      rw [hclients, mem_cons, hfold]
    · intro client other
      unfold Host.put
      rw [hnext, Nat.add_sub_cancel_left]
      simp

theorem Ordered.act (uuid : Uuid) {event : EngineEvent}
    (hadds : Adds (s.engine uuid).world ((s.engine uuid).step config event).world) :
    (s.act config uuid event).Ordered :=
  h.put (owned_step (oneClient_kept config) (h.owned uuid) event trivial).1
    ((h.adding uuid).step event) hadds

theorem Ordered.told (client : ClientId) (event : EngineEvent) (uuid : Uuid) :
    Owned oneClient (s.told config client event uuid) ∧
      (s.told config client event uuid).Adding := by
  unfold Host.told
  split
  · exact ⟨(owned_step (oneClient_kept config) (h.owned uuid) event trivial).1,
      (h.adding uuid).step event⟩
  · exact ⟨h.owned uuid, h.adding uuid⟩

theorem Ordered.tell (client : ClientId) {event : EngineEvent}
    (hsame : ∀ e : Engine, (e.step config event).world.clients = e.world.clients ∧
      (e.step config event).world.nextClient = e.world.nextClient) :
    (s.tell config client event).Ordered := by
  have htold : ∀ uuid, (s.told config client event uuid).world.clients =
      (s.engine uuid).world.clients ∧
      (s.told config client event uuid).world.nextClient = s.nextClient := by
    intro uuid
    unfold Host.told
    split
    · exact hsame _
    · exact ⟨rfl, rfl⟩
  refine h.each (fun uuid => (h.told client event uuid).1) (fun uuid => (h.told client event uuid).2)
    (fun uuid => (htold uuid).2) (fun _ hmem => hmem) h.reported fun other uuid => ?_
  rw [(htold uuid).1, h.mapped]

end

theorem told_closed (client : ClientId) (cause : Option ClientFunction) (uuid : Uuid) :
    (s.told config client (.closed client cause) uuid).world.clients =
        (s.engine uuid).world.clients.filter (fun other => other ≠ client) ∧
      (s.told config client (.closed client cause) uuid).world.nextClient = s.nextClient := by
  unfold told
  split
  · rename_i hmem
    refine ⟨clients_closed client (s.engine uuid).world, ?_⟩
    exact next_closed client (s.engine uuid).world
  · rename_i hmem
    refine ⟨?_, rfl⟩
    rw [eq_comm, filter_eq_self]
    intro other hother
    rw [decide_eq_true_eq]
    rintro rfl
    exact hmem hother

theorem Ordered.closed (h : s.Ordered) {client : ClientId} (cause : Option ClientFunction)
    (hcreated : client ∈ s.created.map Prod.fst) :
    Ordered { s.tell config client (.closed client cause) with reported := client :: s.reported } := by
  refine h.each (fun uuid => (h.told client _ uuid).1) (fun uuid => (h.told client _ uuid).2)
    (fun uuid => (told_closed client cause uuid).2) (fun _ hmem => hmem) ?_ fun other uuid => ?_
  · intro other hother
    rcases mem_cons.1 hother with rfl | hold
    · obtain ⟨⟨other, uuid⟩, hmem, rfl⟩ := mem_map.1 hcreated
      exact h.below hmem
    · exact h.reported other hold
  · change other ∈ (s.told config client (.closed client cause) uuid).world.clients ↔
      (other, uuid) ∈ s.created ∧ other ∉ client :: s.reported
    rw [(told_closed client cause uuid).1, mem_filter, h.mapped, mem_cons, not_or,
      decide_eq_true_eq, and_assoc, and_comm (a := other ∉ s.reported)]

theorem Ordered.restart (h : s.Ordered) (readable : Uuid → Bool) :
    (s.step config (.restart readable)).Ordered := by
  refine h.each (fun uuid => ?_) (fun uuid => (h.adding uuid).step (.restart (readable uuid)))
    (fun _ => rfl) (nil_subset _) (fun _ hmem => absurd hmem not_mem_nil) fun client uuid => ?_
  · exact (owned_step (oneClient_kept config) (h.owned uuid) (.restart (readable uuid)) trivial).1
  · constructor
    · exact fun hmem => absurd hmem not_mem_nil
    · exact fun ⟨hmem, _⟩ => absurd hmem not_mem_nil

theorem ordered_step (h : s.Ordered) {event : HostEvent} (hassumes : s.Assumes event) :
    (s.step config event).Ordered := by
  cases event with
  | call uuid command => exact h.act uuid ((h.adding uuid).adds (Or.inl ⟨command, rfl⟩))
  | advance uuid index reply =>
    exact h.act uuid ((h.adding uuid).adds (Or.inr ⟨index, reply, rfl⟩))
  | pop uuid => exact h.act uuid (sameClients_effect .pop nofun nofun _).adds
  | persist uuid reply =>
    exact h.act uuid (sameClients_effect (.persist reply) nofun nofun _).adds
  | settle uuid => exact h.act uuid (sameClients_effect .settle nofun nofun _).adds
  | requeue uuid => exact h.act uuid (sameClients_effect .requeue nofun nofun _).adds
  | authorization client state =>
    refine h.tell client fun e => ?_
    have hsame := sameClients_effect (.authorization client state) nofun nofun e.world
    exact ⟨hsame.clients, hsame.next⟩
  | closed client cause => exact h.closed cause hassumes
  | stalled client => exact h.tell client fun e => ⟨rfl, rfl⟩
  | stop =>
    have hsame : ∀ e : Engine, SameClients e.world (e.step config .stop).world := fun e =>
      sameClients_effect .stop nofun nofun e.world
    refine h.each (fun uuid => ?_) (fun uuid => (h.adding uuid).step .stop)
      (fun uuid => (hsame (s.engine uuid)).next) (fun _ hmem => hmem) h.reported fun client uuid => ?_
    · exact (owned_step (oneClient_kept config) (h.owned uuid) .stop trivial).1
    · rw [(hsame (s.engine uuid)).clients, h.mapped]
  | restart readable => exact h.restart readable

theorem ordered_start (files : Uuid → World) (readable : Uuid → Bool) :
    (start files readable).Ordered := by
  refine ⟨fun uuid => ?_, fun _ _ hentry => absurd hentry not_mem_nil,
    fun hmem => absurd hmem not_mem_nil, fun _ hmem => absurd hmem not_mem_nil,
    fun client uuid => ?_, fun hmem => absurd hmem not_mem_nil⟩
  · obtain ⟨hid, hclosing, hfree⟩ := restart_idle (files uuid) (readable uuid)
    refine ⟨clientsOrdered_idle Nat.one_pos rfl hid hclosing, Or.inl ⟨rfl, hfree⟩, ?_⟩
    exact fun _ hentry => absurd hentry not_mem_nil
  · constructor
    · exact fun hmem => absurd hmem not_mem_nil
    · exact fun ⟨hmem, _⟩ => absurd hmem not_mem_nil

theorem Ordered.oneClientEach (h : s.Ordered) : s.OneClientEach := by
  refine ⟨fun uuid => ?_, fun uuid => ?_, h.mapped, h.unique, ?_, fun uuid hne _ => ?_⟩
  · rcases (h.owned uuid).running with ⟨hnone, -⟩ | ⟨command, tag, effect, next, hone, -⟩
    · rw [hnone]
      exact Nat.zero_le _
    · rw [hone]
      exact Nat.le_refl _
  · rcases (h.owned uuid).running with ⟨hnone, hfree⟩ | ⟨command, tag, effect, next, hone, hruns⟩
    · rw [hnone, hfree]
      simp
    · rw [hone, hruns.1.1]
      simp
  · intro client client' uuid hmem hmem' hne
    by_contra hopen
    rw [not_or] at hopen
    have hclient := (h.mapped client uuid).2 ⟨hmem, hopen.1⟩
    have hclient' := (h.mapped client' uuid).2 ⟨hmem', hopen.2⟩
    -- both are the one client that the account has
    have hinv := (h.owned uuid).inv
    exact hne ((hinv.current client hclient).trans (hinv.current client' hclient').symm)
  · exact (h.owned uuid).inv.listed hne

theorem created_step {event : HostEvent} {client : ClientId}
    (hnew : (client, uuid) ∈ (s.step config event).created) (hfresh : (client, uuid) ∉ s.created) :
    s.nextClient ≤ client ∧ s.created ⊆ (s.step config event).created ∧
      (s.step config event).reported = s.reported := by
  have hput : ∀ (account : Uuid) (engine : Engine), (client, uuid) ∈ (s.put account engine).created →
      s.nextClient ≤ client ∧ s.created ⊆ (s.put account engine).created ∧
        (s.put account engine).reported = s.reported := by
    intro account engine hmem
    refine ⟨?_, fun _ hold => mem_append_right _ hold, rfl⟩
    rcases mem_append.1 hmem with hrange | hold
    · obtain ⟨number, hnumber, heq⟩ := mem_map.1 hrange
      rw [← (Prod.mk.inj heq).1]
      exact (mem_range'_1.1 hnumber).1
    · exact absurd hold hfresh
  cases event with
  | call account command | advance account index reply | pop account | persist account reply
  | settle account | requeue account =>
    exact hput _ _ hnew
  | authorization other state | closed other cause | stalled other | stop =>
    exact absurd hnew hfresh
  | restart readable => exact absurd hnew not_mem_nil

/-- **One command and one client for each account**, in every state of every run, whatever is in the
files when the process starts; and a client is created for an account only when all of its clients so
far have reported that they are closed. -/
theorem oneClient_of_run {files : Uuid → World} {readable : Uuid → Bool} {events : List HostEvent}
    (hrun : Run (Within Assumes fun s e s' => s.step config e = s') (start files readable) events s) :
    s.OneClientEach ∧ ∀ event, s.Assumes event → ∀ client uuid,
      (client, uuid) ∈ (s.step config event).created → (client, uuid) ∉ s.created →
        ∀ earlier, (earlier, uuid) ∈ s.created → earlier ∈ s.reported := by
  have hstep : ∀ (s : Host) (event : HostEvent) (s' : Host), s.Ordered →
      Within Assumes (fun s e s' => s.step config e = s') s event s' → s'.Ordered := by
    rintro s event s' h ⟨hassumes, rfl⟩
    exact ordered_step h hassumes
  have hordered : s.Ordered := hrun.invariant Ordered hstep (ordered_start files readable)
  refine ⟨hordered.oneClientEach, fun event hassumes client uuid hnew hfresh earlier hold => ?_⟩
  obtain ⟨hnumber, hcreated, hreported⟩ := created_step hnew hfresh
  have hopen : client ∉ s.reported := fun hmem =>
    absurd (hordered.reported client hmem) (Nat.not_lt_of_le hnumber)
  have hne : earlier ≠ client := by
    rintro rfl
    exact hfresh hold
  have hsingle := (ordered_step hordered hassumes).oneClientEach.single (hcreated hold) hnew hne
  rw [hreported] at hsingle
  exact hsingle.resolve_right hopen

/-- An account gets a client, another account gets the next, and the first client is closed: the first
account can get a new one. -/
def sampleEvents : List HostEvent :=
  let activation : List Reply := [.done, .done, .done] ++ sampleActivation ++ [.done, .done, .done]
  let reconcile (uuid : Uuid) (revision : ℕ) : List HostEvent :=
    .call uuid (.reconcile { generation := 7, revision }) ::
      activation.map (HostEvent.advance uuid 0)
  reconcile 1 1 ++ reconcile 2 1 ++ [.stalled 1, .closed 1 none, .authorization 1 .ready] ++
    reconcile 1 2

theorem oneClient_of_run_sample :
    let s := sampleEvents.foldl (Host.step sampleConfig) (start (fun _ => {}) fun _ => true)
    s.created = [(3, 1), (2, 2), (1, 1)] ∧ s.OneClientEach := by
  intro s
  have hcheck : check (Host.step sampleConfig) Assumes (start (fun _ => {}) fun _ => true)
      sampleEvents = true := by decide +kernel
  exact ⟨by decide +kernel, (oneClient_of_run (run_of_check _ hcheck)).1⟩

end Host

end Runtime
