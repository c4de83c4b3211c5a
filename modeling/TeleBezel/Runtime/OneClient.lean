import TeleBezel.Runtime.OneCommand

/-!
# One client at a time

`activate` creates a client of TDLib only when the account has none, and the client that an account has
is the only one whose updates are taken for it. A client that is being closed is still there, so the
update that it is closed comes.
-/

open List

namespace Runtime

open Program Transition

structure ClientsOrdered (s : World) : Prop where
  below : ∀ client ∈ s.clients, 0 < client ∧ client < s.nextClient
  next : 0 < s.nextClient
  current : ∀ client ∈ s.clients, client = s.account.clientId
  listed : s.account.clientId ≠ 0 → s.account.clientId ∈ s.clients
  live : s.account.clientId ≠ 0 → s.account.closed = false
  closing : s.account.closing = true → s.account.clientId ≠ 0
  known : s.known = false → s.clients = []

/-- What is known of the clients of an account. -/
def World.clientView (s : World) :=
  (s.clients, s.nextClient, s.known, s.account.clientId, s.account.closed, s.account.closing)

def SameClients (s s' : World) : Prop := s'.clientView = s.clientView

namespace SameClients

variable {s s' : World} (h : SameClients s s')
include h

theorem clients : s'.clients = s.clients := congrArg (·.1) h

theorem next : s'.nextClient = s.nextClient := congrArg (·.2.1) h

theorem known : s'.known = s.known := congrArg (·.2.2.1) h

theorem clientId : s'.account.clientId = s.account.clientId := congrArg (·.2.2.2.1) h

omit h in
theorem of_account {account : AccountState} (hid : account.clientId = s.account.clientId)
    (hclosed : account.closed = s.account.closed) (hclosing : account.closing = s.account.closing) :
    SameClients s { s with account } := by
  simp only [SameClients, World.clientView, hid, hclosed, hclosing]

end SameClients

def StaysIdle (_ : Point) (s s' : World) : Prop := s.account.clientId = 0 → s'.account.clientId = 0

def oneClient : Discipline where
  inv := ClientsOrdered
  rel _ _ := True
  others := StaysIdle
  permits _ _ _ := True
  ends _ _ _ := True
  rel_refl _ := trivial
  rel_trans _ _ := trivial
  others_refl _ _ := id
  others_trans h h' hidle := h' (h hidle)
  ends_rel _ _ := trivial

section Beside

variable {s s' : World}

theorem ClientsOrdered.same (h : ClientsOrdered s) (hsame : SameClients s s') :
    ClientsOrdered s' := by
  simp only [SameClients, World.clientView, Prod.mk.injEq] at hsame
  obtain ⟨hclients, hnext, hknown, hid, hclosed, hclosing⟩ := hsame
  exact
    { below := by rw [hclients, hnext]; exact h.below
      next := by rw [hnext]; exact h.next
      current := by rw [hclients, hid]; exact h.current
      listed := by rw [hclients, hid]; exact h.listed
      live := by rw [hid, hclosed]; exact h.live
      closing := by rw [hclosing, hid]; exact h.closing
      known := by rw [hknown, hclients]; exact h.known }

theorem ClientsOrdered.close (h : ClientsOrdered s) (hid : s.account.clientId ≠ 0)
    (reconciled : Bool) (sent : List (ClientId × ClientFunction)) :
    ClientsOrdered
      { s with
        account := { s.account with closing := true, reconciled := reconciled }
        transmitted := sent } :=
  ⟨h.below, h.next, h.current, h.listed, h.live, fun _ => hid, h.known⟩

theorem clientsOrdered_idle (hnext : 0 < s.nextClient) (hclients : s.clients = [])
    (hid : s.account.clientId = 0) (hclosing : s.account.closing = false) : ClientsOrdered s where
  below _ hclient := absurd (hclients ▸ hclient) not_mem_nil
  next := hnext
  current _ hclient := absurd (hclients ▸ hclient) not_mem_nil
  listed hne := absurd hid hne
  live hne := absurd hid hne
  closing htrue := absurd (hclosing.symm.trans htrue) Bool.false_ne_true
  known _ := hclients

theorem ClientsOrdered.clients_eq_nil (h : ClientsOrdered s) (hidle : s.account.clientId = 0) :
    s.clients = [] := by
  rw [eq_nil_iff_forall_not_mem]
  intro client hclient
  have hzero := (h.current client hclient).trans hidle
  exact absurd hzero (Nat.pos_iff_ne_zero.1 (h.below client hclient).1)

theorem sameClients_leaveSession (state : AuthorizationState) (s : World) :
    SameClients s (leaveSession state s) := by
  unfold leaveSession queueGenerationPersist
  split
  · exact rfl
  · exact rfl

variable (client : ClientId)

theorem sameClients_authorization {state : AuthorizationState}
    (hopen : state ≠ .closed) (s : World) : SameClients s (handleAuthorization client state s) := by
  unfold handleAuthorization
  split
  · exact rfl
  · by_cases hleaves : s.account.authorizationState = .ready ∧ state ≠ .ready
    · rw [if_pos hleaves]
      exact sameClients_leaveSession state s
    · rw [if_neg hleaves]
      exact rfl

theorem clients_closed (s : World) :
    (handleAuthorization client .closed s).clients = s.clients.filter fun other => other ≠ client := by
  unfold handleAuthorization
  split
  · rename_i hmem
    rw [eq_comm, filter_eq_self]
    intro other hother
    rw [decide_eq_true_eq]
    rintro rfl
    exact hmem hother
  · rw [if_pos rfl]
    split
    · exact congrArg (List.filter _) (sameClients_leaveSession .closed s).clients
    · rfl

theorem next_closed (s : World) :
    (handleAuthorization client .closed s).nextClient = s.nextClient := by
  unfold handleAuthorization
  split
  · rfl
  · rw [if_pos rfl]
    split
    · exact (sameClients_leaveSession .closed s).next
    · rfl

theorem clientsOrdered_closed (h : ClientsOrdered s) (client : ClientId) :
    ClientsOrdered (handleAuthorization client .closed s) ∧
      (s.account.clientId = 0 → (handleAuthorization client .closed s).account.clientId = 0) := by
  by_cases hmem : client ∈ s.clients
  · -- it is the one client of the account
    have hcurrent := h.current client hmem
    have hnone : (handleAuthorization client .closed s).clients = [] := by
      rw [clients_closed, filter_eq_nil_iff]
      intro other hother
      simp [h.current other hother, hcurrent]
    have haccount : (handleAuthorization client .closed s).account.clientId = 0 ∧
        (handleAuthorization client .closed s).account.closing = false := by
      unfold handleAuthorization
      rw [if_neg (not_not.2 hmem)]
      rw [if_pos rfl]
      split
      · refine ⟨if_pos ?_, rfl⟩
        exact (sameClients_leaveSession .closed s).clientId.trans hcurrent.symm
      · exact ⟨if_pos hcurrent.symm, rfl⟩
    have hnext : 0 < (handleAuthorization client .closed s).nextClient := by
      rw [next_closed]
      exact h.next
    exact ⟨clientsOrdered_idle hnext hnone haccount.1 haccount.2, fun _ => haccount.1⟩
  · have hsame : handleAuthorization client .closed s = s := by
      unfold handleAuthorization
      rw [if_pos hmem]
    rw [hsame]
    exact ⟨h, id⟩

theorem sameClients_effect (event : EngineEvent)
    (hclosed : ∀ client cause, event ≠ .closed client cause)
    (hstalled : ∀ client, event ≠ .stalled client) (s : World) :
    SameClients s (event.effect s) := by
  cases event with
  | authorization client state =>
    change SameClients s (if state = .closed then s else handleAuthorization client state s)
    split
    · exact rfl
    · rename_i hopen
      exact sameClients_authorization client hopen s
  | closed client cause => exact absurd rfl (hclosed client cause)
  | stalled client => exact absurd rfl (hstalled client)
  | stop =>
    change SameClients s (stop s)
    unfold stop
    split <;> exact rfl
  | pop =>
    change SameClients s (pop s)
    unfold pop
    split <;> exact rfl
  | persist reply =>
    change SameClients s (persistJob reply s)
    unfold persistJob
    split
    · split <;> exact rfl
    · exact rfl
  | settle =>
    change SameClients s (settle s)
    unfold settle
    split
    · split
      · exact rfl
      split <;> exact rfl
    · exact rfl
  | requeue =>
    change SameClients s (requeue s)
    unfold requeue
    split <;> exact rfl
  | call command => exact rfl
  | advance index reply => exact rfl
  | restart readable => exact rfl

theorem clients_beside (event : EngineEvent) (h : ClientsOrdered s) :
    ClientsOrdered (event.effect s) ∧
      (s.account.clientId = 0 → (event.effect s).account.clientId = 0) := by
  by_cases hclosed : ∃ client cause, event = .closed client cause
  · obtain ⟨client, cause, rfl⟩ := hclosed
    obtain ⟨hinv, hidle⟩ := clientsOrdered_closed h client
    exact ⟨hinv.same rfl, hidle⟩
  by_cases hstalled : ∃ client, event = .stalled client
  · obtain ⟨client, rfl⟩ := hstalled
    change ClientsOrdered (stall client s) ∧ (_ → (stall client s).account.clientId = 0)
    unfold stall
    split
    · rename_i hcurrent
      have hne : s.account.clientId ≠ 0 := by
        rw [hcurrent.2.1]
        exact Nat.pos_iff_ne_zero.1 (h.below client hcurrent.1).1
      exact ⟨h.close hne _ _, id⟩
    · exact ⟨h.same rfl, id⟩
  · have hsame : SameClients s (event.effect s) :=
      sameClients_effect event (fun client cause heq => hclosed ⟨client, cause, heq⟩)
        (fun client heq => hstalled ⟨client, heq⟩) s
    exact ⟨h.same hsame, fun hidle => hsame.clientId.trans hidle⟩

theorem restart_idle (s : World) (readable : Bool) :
    (s.restart readable).account.clientId = 0 ∧ (s.restart readable).account.closing = false ∧
      (s.restart readable).account.busy = false := by
  unfold World.restart
  cases s.manifest with
  | none => exact ⟨rfl, rfl, rfl⟩
  | some manifest => cases readable <;> exact ⟨rfl, rfl, rfl⟩

theorem clients_restart (h : ClientsOrdered s) (readable : Bool) :
    ClientsOrdered (s.restart readable) := by
  obtain ⟨hid, hclosing, -⟩ := restart_idle s readable
  exact clientsOrdered_idle h.next rfl hid hclosing

end Beside

section Commands

variable {config : Config} {s s' : World} {α : Type}

structure Tended (s s' : World) : Prop where
  busy : s'.account.busy = s.account.busy
  known : s'.known = s.known
  idle : s.account.clientId = 0 → s'.account.clientId = 0
  clients : ClientsOrdered s → ClientsOrdered s'

theorem Tended.refl (s : World) : Tended s s := ⟨rfl, rfl, id, id⟩

theorem SameClients.tended (h : SameClients s s') (hbusy : s'.account.busy = s.account.busy) :
    Tended s s' where
  busy := hbusy
  known := h.known
  idle hidle := h.clientId.trans hidle
  clients hs := hs.same h

theorem tended_mild : Mild Tended where
  refl := Tended.refl
  transmitted _ _ := SameClients.tended rfl rfl
  proxy _ _ := SameClients.tended rfl rfl
  credentials _ _ _ := SameClients.tended rfl rfl

theorem tended_write (manifest : AccountManifest) : (write manifest).Every Tended := by
  intro s reply
  cases reply with
  | threw code => exact ⟨Tended.refl s, trivial⟩
  | _ => exact ⟨SameClients.tended rfl rfl, trivial⟩

theorem tended_persist (phase : Phase) (lifecycle : Lifecycle) (operation : Option Uuid) :
    (persist config phase lifecycle operation).Every Tended := by
  refine Prog.Every.bind ?_ fun manifest => tended_write manifest
  exact fun s _ => ⟨SameClients.tended rfl rfl, trivial⟩

theorem ClientsOrdered.idle_of_closed (h : ClientsOrdered s) (hclosed : s.account.closed = true) :
    s.account.clientId = 0 := by
  by_contra hne
  rw [h.live hne] at hclosed
  exact absurd hclosed Bool.false_ne_true

theorem tended_end (client : ClientId) (hclosed : s.account.closed = true) : Tended s
    { s with
      clients := s.clients.filter fun other => other ≠ client
      account :=
        { s.account with
          clientId := 0
          proxyApplied := false
          appliedProxy := none
          appliedTelegramApiId := 0
          appliedTelegramApiHash := none } } := by
  refine ⟨rfl, rfl, fun _ => rfl, fun h => ?_⟩
  have hidle := h.idle_of_closed hclosed
  refine clientsOrdered_idle h.next ?_ rfl ?_
  · rw [h.clients_eq_nil hidle, filter_nil]
  · rw [← Bool.not_eq_true]
    exact fun hclosing => h.closing hclosing hidle

theorem tended_request (client : ClientId) (function : ClientFunction) :
    (request client function).Every Tended :=
  every_request Tended.refl (fun _ _ => SameClients.tended rfl rfl)
    (fun _ => SameClients.tended rfl rfl) client function

theorem meets_tended {part : Cmd α} (hpart : part.Every Tended) (h : Underway oneClient s) :
    oneClient.Keeps (Underway oneClient) part s := by
  refine (meets_every hpart (fun _ => True) h trivial (fun _ _ _ _ => id) ?_).mono
    (fun _ _ h => h.1) fun _ _ h => h.1
  intro s s' h _ htended
  exact ⟨⟨htended.clients h.inv, htended.busy.trans h.busy, htended.known.trans h.known⟩, trivial,
    trivial⟩

def Idle (s : World) : Prop := Underway oneClient s ∧ s.account.clientId = 0

theorem meets_idle {part : Cmd α} (hpart : part.Every Tended) (h : Idle s) :
    oneClient.Keeps Idle part s := by
  refine meets_every hpart (fun s => s.account.clientId = 0) h.1 h.2 ?_ ?_
  · exact fun _ s s' hrely hidle => hrely.2.2.2 hidle
  · intro s s' h hidle htended
    exact ⟨⟨htended.clients h.inv, htended.busy.trans h.busy, htended.known.trans h.known⟩, trivial,
      htended.idle hidle⟩

theorem meets_createClient (h : Idle s) :
    Meets oneClient.contract (fun client s => Underway oneClient s ∧ client ≠ 0)
      (fun _ => Underway oneClient) createClient s := by
  refine meets_critical h.1 fun s' h' hrely => ?_
  have hidle : s'.account.clientId = 0 := hrely.2.2.2 h.2
  have hnone := h'.inv.clients_eq_nil hidle
  have hclosing : s'.account.closing ≠ true := fun hclosing => h'.inv.closing hclosing hidle
  have hpos := Nat.pos_iff_ne_zero.1 h'.inv.next
  have hinv : ClientsOrdered
      { s' with
        nextClient := s'.nextClient + 1
        clients := s'.nextClient :: s'.clients
        account :=
          { s'.account with
            clientId := s'.nextClient
            closed := false
            proxyApplied := false
            appliedProxy := none
            appliedTelegramApiId := 0
            appliedTelegramApiHash := none } } := by
    rw [hnone]
    refine ⟨?_, Nat.succ_pos _, ?_, ?_, fun _ => rfl, fun htrue => absurd htrue hclosing, ?_⟩
    · intro client hclient
      rw [mem_singleton.1 hclient]
      exact ⟨h'.inv.next, Nat.lt_succ_self _⟩
    · exact fun client hclient => mem_singleton.1 hclient
    · exact fun _ => mem_singleton_self _
    · exact fun hunknown => absurd (h'.known.symm.trans hunknown) Bool.false_ne_true.symm
  exact ⟨hinv, trivial, ⟨hinv, h'.busy, h'.known⟩, hpos⟩

theorem meets_activate (h : Underway oneClient s) :
    oneClient.Keeps (Underway oneClient)
      (activate config) s := by
  refine meets_bind.mpr ⟨⟨h.busy, h.known⟩, fun s' hrely _ _ => ?_⟩
  have h' := h.rely hrely
  dsimp only
  split
  · exact ⟨⟨h'.inv, trivial⟩, h'⟩
  split
  · exact ⟨⟨h'.inv, trivial⟩, h'⟩
  · rename_i hclosing hlive
    refine ⟨⟨h'.inv, trivial⟩, ?_⟩
    have hidle : Idle s' := by
      refine ⟨h', ?_⟩
      by_contra hne
      exact hlive ⟨hne, by rw [h'.inv.live hne]; rfl⟩
    refine meets_seq (meets_idle (every_onlyIf (every_throw _)) hidle) (fun _ _ h => h.1) fun _ s h => ?_
    refine meets_seq (meets_idle (every_files .files Tended.refl Tended.refl) h) (fun _ _ h => h.1)
      fun _ s h => ?_
    refine meets_seq (meets_createClient h) (fun _ _ => id) fun client s h => ?_
    refine meets_tryCatch.mpr ((meets_tended (every_setUpClient config tended_mild client _ _) h.1).mono
      (fun _ _ => id) fun failure s h' => meets_tended ?_ h')
    refine every_abandonClient tended_mild client (fun s hcurrent => ?_) failure
    have hne : s.account.clientId ≠ 0 := by
      rw [hcurrent]
      exact h.2
    exact ⟨rfl, rfl, id, fun hinv => hinv.close hne _ _⟩

theorem meets_closeAccount (h : Underway oneClient s) (destroy : Bool) :
    Meets oneClient.contract (fun _ => Idle) (fun _ => Underway oneClient) (closeAccount destroy) s := by
  have hstart : Meets oneClient.contract
      (fun client s => Underway oneClient s ∧ (client = none → s.account.clientId = 0))
      (fun _ => Underway oneClient)
      (Prog.act Point.wait (fun s _ => s) fun s _ =>
        if s.account.closing then .raise .operationOutcomeUnknown
        else if s.account.clientId = 0 ∨ s.account.closed then .ret none
        else .ret (some s.account.clientId) : Cmd (Option ClientId)) s := by
    refine ⟨⟨h.busy, h.known⟩, fun s' hrely _ _ => ?_⟩
    have h' := h.rely hrely
    refine ⟨⟨h'.inv, trivial⟩, ?_⟩
    dsimp only
    split
    · exact h'
    split
    · rename_i hidle
      exact ⟨h', fun _ => hidle.elim id h'.inv.idle_of_closed⟩
    · exact ⟨h', nofun⟩
  refine meets_seq hstart (fun _ _ => id) fun client s h => ?_
  cases client with
  | none => exact ⟨h.1, h.2 rfl⟩
  | some client =>
    have hfunction : (if destroy then ClientFunction.destroy else .close) ≠ .logOut := by
      split <;> simp
    refine meets_seq (meets_tended (every_ask tended_mild client hfunction) h.1) (fun _ _ => id)
      fun response s h => ?_
    refine meets_seq (meets_tended (every_onlyIf (every_throw _)) h) (fun _ _ => id) fun _ s h => ?_
    refine meets_seq (meets_tended (every_onlyIf (every_throw _)) h) (fun _ _ => id) fun _ s h => ?_
    refine ⟨⟨h.busy, h.known⟩, fun s' hrely _ _ => ?_⟩
    have h' := h.rely hrely
    by_cases hclosed : s'.account.closed = true
    · have htended := tended_end client hclosed
      dsimp only
      rw [if_pos hclosed, if_pos hclosed]
      have hinv := htended.clients h'.inv
      exact ⟨⟨hinv, trivial⟩, ⟨hinv, h'.busy, h'.known⟩, rfl⟩
    · dsimp only
      rw [if_neg hclosed, if_neg hclosed]
      exact ⟨⟨h'.inv, trivial⟩, h'⟩

theorem clients_madeUp (h : ClientsOrdered s) (c : AccountCommand) (hunknown : s.known = false) :
    oneClient.inv (s.madeUp config c) ∧ oneClient.rel s (s.madeUp config c) :=
  ⟨clientsOrdered_idle h.next (h.known hunknown) rfl rfl, trivial⟩

/-! The first critical sections are not about clients. -/

theorem Taken.sameClients {c : AccountCommand} {account : AccountState}
    {manifest : AccountManifest} (h : Taken c s account manifest) :
    SameClients s { s with account } :=
  .of_account h.clientId h.closed h.closing

theorem TakenLogout.sameClients {c : AccountCommand} {newOperation : Bool} {account : AccountState}
    (h : TakenLogout c s newOperation account) :
    SameClients s (s.loggingOut c newOperation account) := by
  have hsame : SameClients s { s with account } := .of_account h.clientId h.closed h.closing
  exact hsame

section

variable (c : AccountCommand) (s : World)

theorem sameClients_beginReconcile :
    SameClients s (beginReconcile config c s).2 := by
  rcases beginReconcile_cases c with ⟨_, heq⟩ | ⟨_, _, heq, htaken⟩
  · rw [heq]
    exact rfl
  · rw [heq]
    exact htaken.sameClients

theorem sameClients_beginLogout :
    SameClients s (beginLogout c s).2 := by
  rcases beginLogout_cases c with ⟨_, _, heq⟩ | ⟨_, _, heq, htaken⟩
  · rw [heq]
    exact rfl
  · rw [heq]
    exact htaken.sameClients

theorem sameClients_beginUpdateProxy :
    SameClients s (beginUpdateProxy config c s).2 := by
  rcases beginUpdateProxy_cases c with ⟨_, heq⟩ | ⟨_, _, heq, htaken⟩
  · rw [heq]
    exact rfl
  · rw [heq]
    exact htaken.sameClients

theorem sameClients_beginRemove :
    SameClients s (beginRemove config c s).2 := by
  rcases beginRemove_cases c with ⟨_, heq⟩ | ⟨_, _, _, heq, htaken⟩
  · rw [heq]
    exact rfl
  · rw [heq]
    exact htaken.sameClients

theorem sameClients_beginAuthorization :
    SameClients s (beginAuthorization c s).2 := by
  unfold beginAuthorization
  dsimp only
  split_ifs <;> exact rfl

end

theorem Underway.same (h : Underway oneClient s) (hsame : SameClients s s')
    (hbusy : s'.account.busy = s.account.busy) : Underway oneClient s' :=
  ⟨h.inv.same hsame, hbusy.trans h.busy, hsame.known.trans h.known⟩

theorem clients_tends (fingerprint : Fingerprint) :
    Tends oneClient fingerprint (Underway oneClient) fun _ _ => True where
  underway h := h
  rely h hrely := h.rely hrely
  held _ _ := trivial
  tame h htame := by
    obtain ⟨_, _, _, rfl⟩ := htame
    exact ⟨trivial, h.same rfl rfl⟩
  kept _ _ := trivial
  write h _ := (meets_tended (tended_write _) h).mono (fun _ _ h => ⟨h, trivial⟩) fun _ _ h => h
  writable _ _ _ := trivial
  freed h hfreed :=
    ⟨h.inv.same (.of_account hfreed.clientId hfreed.closed hfreed.closing), trivial⟩

/-- The account is without a client from its end on. -/
theorem clients_tends_idle (fingerprint : Fingerprint) :
    Tends oneClient fingerprint Idle fun _ _ => True where
  underway h := h.1
  rely h hrely := ⟨h.1.rely hrely, hrely.2.2.2 h.2⟩
  held _ _ := trivial
  tame h htame := by
    obtain ⟨_, _, _, rfl⟩ := htame
    exact ⟨trivial, h.1.same rfl rfl, h.2⟩
  kept _ _ := trivial
  write h _ := (meets_idle (tended_write _) h).mono (fun _ _ h => ⟨h, trivial⟩) fun _ _ h => h
  writable _ _ _ := trivial
  freed h hfreed := (clients_tends fingerprint).freed h.1 hfreed

theorem clients_takes (c : AccountCommand) :
    Takes config oneClient c (Underway oneClient) fun _ _ => True where
  toTends := clients_tends _
  madeUp h hunknown _ := clients_madeUp h c hunknown
  taken h hknown _ htaken :=
    ⟨trivial, ⟨h.same htaken.sameClients, htaken.busy, hknown⟩, trivial⟩
  activate h := meets_activate h
  applyProxy h := meets_tended (every_applyProxy config tended_mild) h

end Commands

theorem oneClient_kept (config : Config) : Kept config oneClient where
  beside event h _ := by
    obtain ⟨hinv, hidle⟩ := clients_beside event h
    exact ⟨hinv, trivial, fun _ _ => hidle⟩
  restart readable h := ⟨clients_restart h readable, trivial⟩
  refusal _ _ := trivial
  begins command s hinv hfree _ := by
    have hends : ∀ command result s, oneClient.ends command result s := fun _ _ _ => trivial
    cases command with
    | reconcile c =>
      exact (clients_takes c).reconcile hinv hfree (hends _)
        fun h => (meets_closeAccount h false).mono (fun _ _ h => h.1) fun _ _ h => h
    | logout c =>
      exact (clients_tends _).logout hinv hfree (hends _)
        (fun h hunknown _ => clients_madeUp h c hunknown)
        (fun h hknown _ htaken => ⟨trivial, h.same htaken.sameClients, htaken.busy, hknown⟩)
        meets_activate (fun _ _ _ h => meets_tended (tended_persist _ _ _) h)
        fun _ _ h => meets_tended (tended_request _ _) h
    | updateProxy c => exact (clients_takes c).updateProxy hinv hfree (hends _)
    | remove c =>
      refine (clients_takes c).remove hinv hfree (hends _) (clients_tends_idle _)
        (fun h => meets_closeAccount h true) fun h => ⟨?_, trivial⟩
      refine clientsOrdered_idle h.1.inv.next (h.1.inv.clients_eq_nil h.2) h.2 ?_
      rw [← Bool.not_eq_true]
      exact fun hclosing => h.1.inv.closing hclosing h.2
    | authorization c valid =>
      exact begins_signIn hinv hfree (hends _) (fun h hunknown _ => clients_madeUp h c hunknown)
        (fun h _ _ => ⟨h.same (sameClients_beginAuthorization c _), trivial⟩)
        (fun _ h => meets_tended (tended_request _ _) h) fun h => ⟨h.inv.same rfl, trivial⟩

end Runtime
