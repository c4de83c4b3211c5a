import TeleBezel.Runtime.OneCommand

/-!
# Commands that are rejected

What a command leaves behind in `accounts_` when it ends and neither was anything written on the way
nor was TDLib asked for anything: it is rejected, or it had been completed before. `validated_account`
makes up an account that is not known before it looks at the rest of the command. `logout` changes the
account in its first critical section, also where it is resumed, and then may find that a client cannot
be activated. `authorization_action` takes over the generation before the broker can refuse its request.
-/

namespace Runtime

open Program

/-- The reply changes nothing outside. -/
def Inert : Point → Reply → Prop
  | .critical, _ | .record _, _ | .files, _ | .wait, _ => True
  -- a request that the broker does not take
  | .begin _ _, .refused _ | .begin _ _, .threw _ => True
  -- the directories of `reconcile` are made by the registry as well
  | .holding _, _ | .write _, _ => False
  | .begin _ _, _ | .await _ _, _ | .send _ _, _ => False

section Entries

variable {σ : Type} (config : Config) (reset : σ → σ)

/-- The entry of `accounts_`, with what the account has as its session. -/
def World.entry (s : World) (session : σ) : Option (AccountState × σ) :=
  if s.known then some (s.account, session) else none

def goesOn {α : Type} : Except ErrorCode (Answer ⊕ α) × World → Bool
  | (.ok (.inr _), _) => true
  | _ => false

/-- What becomes of the session: `reset_session` stands where `logout` and `remove` go on. -/
def sessionAfter (command : Command) (s : World) (session : σ) : σ :=
  match command with
  | .logout c => if goesOn (entering config c (beginLogout c) s) then reset session else session
  | .remove c => if goesOn (enterRemove config c s) then reset session else session
  | _ => session

end Entries

/-- The account is known, or `validated_account` throws before it makes one up. -/
def Found (s : World) (c : AccountCommand) : Prop :=
  s.known = true ∨ s.manifestError ≠ none ∨ s.orphan = true ∧ c.lifecycle ≠ .provisioning

/-- `validated_account` accepts the command on an account that was known. -/
structure Valid (config : Config) (s : World) (c : AccountCommand) : Prop where
  known : s.known = true
  manifest : s.manifestError = none
  orphan : ¬(s.orphan = true ∧ c.lifecycle ≠ .provisioning)
  check : checkAccount config s.account c = .ok ()

structure Resumes (c : AccountCommand) (account : AccountState) : Prop where
  free : account.busy = false
  revision : account.revision = c.revision
  lifecycle : account.lifecycle = .logoutPending
  operation : account.operationId = c.logoutOperationId
  fingerprint : account.revisionFingerprint = none ∨
    account.revisionFingerprint = some (c.fingerprint true)

def SameGeneration (c : AccountCommand) (account : AccountState) : Prop :=
  c.authorizationGeneration.getD account.authorizationGeneration = account.authorizationGeneration

structure Settled (c : AccountCommand) (account : AccountState) : Prop where
  reconciled : account.reconciled = false
  generation : SameGeneration c account
  fingerprint : account.revisionFingerprint ≠ none
  phase : account.operationPhase ≠ .none

/-- The command is refused, or has nothing left to do. -/
def Harmless {σ : Type} (config : Config) (reset : σ → σ) (s : World) (session : σ) :
    Command → Prop
  | .reconcile c | .updateProxy c | .remove c => Found s c
  | .logout c => Found s c ∧
      (Valid config s c ∧ Resumes c s.account → Settled c s.account ∧ reset session = session)
  | .authorization c valid => Found s c ∧
      (Valid config s c ∧ valid = true ∧ s.account.reconciled = true ∧ s.account.busy = false →
        SameGeneration c s.account)

section Parts

variable {config : Config} {s s' : World} {α : Type}

theorem alone_criticalOr {g : World → Except ErrorCode α × World} {result : Except ErrorCode α} :
    (criticalOr g).Alone Inert s result s' ↔ result = (g s).1 ∧ s' = (g s).2 := by
  constructor
  · rintro ⟨i, -, h⟩
    dsimp only at h
    cases hvalue : (g s).1 with
    | ok value | error code => rwa [hvalue] at h
  · rintro ⟨rfl, rfl⟩
    refine ⟨.done, trivial, ?_⟩
    dsimp only
    cases (g s).1 with
    | ok value | error code => exact ⟨rfl, rfl⟩

theorem alone_giveUp {error : ErrorCode} {result : Except ErrorCode α}
    (h : (giveUp error : Cmd α).Alone Inert s result s') :
    result = .error error ∧ s' = { s with account := { s.account with busy := false } } := by
  obtain ⟨i, -, h⟩ := h
  exact h

theorem alone_request {client : ClientId} {function : ClientFunction}
    {result : Except ErrorCode (Option TdObject)}
    (h : (request client function).Alone Inert s result s') : s' = s := by
  obtain ⟨reply, hquiet, h⟩ := h
  cases reply with
  | refused stopping => exact h.2
  | threw code => exact h.2
  | done | torn | timedOut | answer object | proxies ids => exact hquiet.elim

theorem alone_onlyIf_throw {condition : Bool} {code : ErrorCode} {result : Except ErrorCode Unit}
    (h : (onlyIf condition (throw code)).Alone Inert s result s') : s' = s := by
  unfold onlyIf at h
  split at h
  · exact h.2
  · exact h.2

theorem alone_activate {error : ErrorCode}
    (h : (activate config).Alone Inert s (.error error) s') : s' = s := by
  rcases alone_bind.mp h with ⟨plan, s₁, hplan, hrest⟩ | ⟨code, hplan, -⟩
  · have hsame : s₁ = s := by
      rw [(alone_criticalOr.mp hplan).2]
      dsimp only
      split_ifs <;> rfl
    subst hsame
    cases plan with
    | none => exact hrest.2
    | some api =>
      rcases alone_bind.mp hrest with ⟨_, s₂, hchecked, hkey⟩ | ⟨code, hchecked, -⟩
      · have hs₂ : s₂ = s₁ := alone_onlyIf_throw hchecked
        subst hs₂
        rcases alone_bind.mp hkey with ⟨_, s₃, -, hclient⟩ | ⟨code, ⟨reply, -, hfiles⟩, -⟩
        · rcases alone_bind.mp hclient with ⟨client, s₄, -, hsetUp⟩ | ⟨code, ⟨i, -, hcreate⟩, -⟩
          · -- there is a client, and the handler sends it `close`
            rcases alone_tryCatch.mp hsetUp with ⟨value, -, hvalue⟩ | ⟨code, s₅, -, hclosing⟩
            · cases hvalue
            · obtain ⟨i, -, j, hsend, -⟩ := hclosing
              exact hsend.elim
          · cases hcreate.1
        · cases reply <;> exact hfiles.2
      · exact alone_onlyIf_throw hchecked
  · rw [(alone_criticalOr.mp hplan).2]
    dsimp only
    split_ifs <;> rfl

end Parts

section Commands

variable {config : Config} {s s' : World} {c : AccountCommand} {result : Except ErrorCode Answer}

theorem not_alone_reconcile {plan : ReconcilePlan} {part : Cmd Answer}
    {handler : ErrorCode → Cmd Answer} :
    ¬(tryCatch (files (.holding plan.manifest) (fun s => { s with directory := true }) >>=
      fun _ => part) handler).Alone Inert s result s' := by
  rintro ⟨reply, hquiet, -⟩
  exact hquiet

/-- What `logout` makes of an account where it is resumed. -/
def resumed (c : AccountCommand) (account : AccountState) : AccountState :=
  { account with
    revisionFingerprint := account.revisionFingerprint <|> some (c.fingerprint true)
    operationPhase := if account.operationPhase = .none then .intent else account.operationPhase
    busy := true
    authorizationGeneration :=
      c.authorizationGeneration.getD account.authorizationGeneration
    reconciled := false }

theorem beginLogout_of_resumes (h : Resumes c s.account) :
    beginLogout c s = (.inr false, { s with account := resumed c s.account }) := by
  have hfingerprint : ¬(s.account.revision = c.revision ∧ s.account.revisionFingerprint ≠ none ∧
      s.account.revisionFingerprint ≠ some (c.fingerprint true)) := by
    rintro ⟨-, hne, hother⟩
    exact h.fingerprint.elim hne hother
  have hresuming : s.account.revision = c.revision ∧ s.account.lifecycle = .logoutPending ∧
      s.account.operationId = c.logoutOperationId := ⟨h.revision, h.lifecycle, h.operation⟩
  unfold beginLogout
  dsimp only
  rw [if_neg (by simp [h.free]), if_neg hfingerprint,
    if_neg fun hother => hother.2.2 h.operation, if_pos hresuming, if_pos hresuming,
    decide_eq_true hresuming]
  rfl

theorem beginLogout_of_not_resumes (h : ¬Resumes c s.account) :
    (∃ answer, beginLogout c s = (.inl answer, s)) ∨ ∃ s₁, beginLogout c s = (.inr true, s₁) := by
  unfold beginLogout
  dsimp only
  split
  · exact Or.inl ⟨_, rfl⟩
  rename_i hfree
  split
  · exact Or.inl ⟨_, rfl⟩
  rename_i hfingerprint
  split
  · exact Or.inl ⟨_, rfl⟩
  by_cases hresuming : s.account.revision = c.revision ∧ s.account.lifecycle = .logoutPending ∧
      s.account.operationId = c.logoutOperationId
  · refine absurd ⟨by simpa using hfree, hresuming.1, hresuming.2.1, hresuming.2.2, ?_⟩ h
    by_contra hne
    rw [not_or] at hne
    exact hfingerprint ⟨hresuming.1, hne.1, hne.2⟩
  · rw [decide_eq_false hresuming]
    exact Or.inr ⟨_, rfl⟩

theorem not_alone_persist {phase : Phase} {lifecycle : Lifecycle} {operation : Option Uuid}
    {k : Unit → Cmd Answer} :
    ¬(persist config phase lifecycle operation >>= k).Alone Inert s result s' := by
  rintro ⟨_, -, reply, hquiet, -⟩
  exact hquiet

theorem alone_activate_bind {k : Unit → Cmd Answer}
    (hk : ∀ s result s', ¬(k ()).Alone Inert s result s')
    (h : (activate config >>= k).Alone Inert s result s') :
    (∃ code, result = .error code) ∧ s' = s := by
  rcases alone_bind.mp h with ⟨_, s₁, -, hrest⟩ | ⟨code, hactivate, rfl⟩
  · exact absurd hrest (hk s₁ result s')
  · exact ⟨⟨code, rfl⟩, alone_activate hactivate⟩

theorem alone_resumed_logout {operation : Option Uuid}
    (h : (do
      let state ← critical fun s => ((s.account.closed, s.account.operationPhase), s)
      if state.1 ∧ state.2 = .executing then do
        persist config .confirmed .logoutPending operation
        confirmedLogout config
      else if state.2 = .confirmed then confirmedLogout config
      else executeLogout config operation : Cmd Answer).Alone Inert s result s') :
    (∃ code, result = .error code) ∧ s' = s := by
  obtain ⟨_, -, h⟩ := h
  change Prog.Alone Inert (if s.account.closed = true ∧ s.account.operationPhase = .executing then
    (persist config .confirmed .logoutPending operation >>= fun _ => confirmedLogout config)
    else if s.account.operationPhase = .confirmed then confirmedLogout config
    else executeLogout config operation) s result s' at h
  split_ifs at h with hexecuted hconfirmed
  · exact absurd h not_alone_persist
  · exact alone_activate_bind (fun s result s' => not_alone_persist) h
  · exact alone_activate_bind (fun s result s' => not_alone_persist) h

theorem alone_logout_rest {newOperation : Bool} {operation : Option Uuid}
    (h : (tryCatch (do
        onlyIf newOperation (persist config .intent .logoutPending operation)
        let state ← critical fun s => ((s.account.closed, s.account.operationPhase), s)
        if state.1 ∧ state.2 = .executing then do
          persist config .confirmed .logoutPending operation
          confirmedLogout config
        else if state.2 = .confirmed then confirmedLogout config
        else executeLogout config operation)
      giveUp : Cmd Answer).Alone Inert s result s') :
    newOperation = false ∧ s' = { s with account := { s.account with busy := false } } := by
  cases newOperation with
  | true =>
    rcases alone_tryCatch.mp h with ⟨_, hpart, -⟩ | ⟨_, _, hpart, -⟩
    · exact absurd hpart not_alone_persist
    · exact absurd hpart not_alone_persist
  | false =>
    refine ⟨rfl, ?_⟩
    rcases alone_tryCatch.mp h with ⟨_, hpart, -⟩ | ⟨_, _, hpart, hgiveUp⟩
    · obtain ⟨⟨code, hcode⟩, -⟩ := alone_resumed_logout hpart
      cases hcode
    · obtain ⟨-, rfl⟩ := alone_resumed_logout hpart
      exact (alone_giveUp hgiveUp).2

theorem alone_authorization_rest {client : ClientId}
    (h : (do
      let response ← tryCatch (request client .authorize) giveUp
      critical (finishAuthorization response) : Cmd Answer).Alone Inert s result s') :
    s' = { s with account := { s.account with busy := false } } := by
  rcases alone_bind.mp h with ⟨response, s₁, hresponse, hfinish⟩ | ⟨_, hresponse, -⟩
  · rcases alone_tryCatch.mp hresponse with ⟨_, hrequest, -⟩ | ⟨_, _, hrequest, hgiveUp⟩
    · obtain rfl := alone_request hrequest
      obtain ⟨_, -, -, rfl⟩ := hfinish
      rfl
    · cases (alone_giveUp hgiveUp).1
  · rcases alone_tryCatch.mp hresponse with ⟨_, -, hvalue⟩ | ⟨_, _, hrequest, hgiveUp⟩
    · cases hvalue
    · obtain rfl := alone_request hrequest
      exact (alone_giveUp hgiveUp).2

end Commands

section Outcome

variable {config : Config} {s s' : World} {c : AccountCommand} {result : Except ErrorCode Answer}
variable {α : Type} {f : World → (Answer ⊕ α) × World} {k : Answer ⊕ α → Cmd Answer}

theorem validatedAccount_of_valid (h : Valid config s c) :
    validatedAccount config s c = (.ok (), s) := by
  unfold validatedAccount
  rw [h.manifest]
  dsimp only
  rw [if_neg h.orphan, if_pos h.known, h.check]

theorem entering_of_valid (h : Valid config s c) :
    entering config c f s = (.ok (f s).1, (f s).2) := by
  rw [entering, validatedAccount_of_valid h]

theorem validatedAccount_of_found (hfound : Found s c) (hvalid : ¬Valid config s c) :
    ∃ code, validatedAccount config s c = (.error code, s) := by
  unfold validatedAccount
  cases hmanifest : s.manifestError with
  | some code => exact ⟨code, rfl⟩
  | none =>
    dsimp only
    by_cases horphan : s.orphan = true ∧ c.lifecycle ≠ .provisioning
    · exact ⟨_, if_pos horphan⟩
    rw [if_neg horphan]
    rcases hfound with hknown | hne | horphan'
    · rw [if_pos hknown]
      cases hcheck : checkAccount config s.account c with
      | error code => exact ⟨code, rfl⟩
      | ok value => exact absurd ⟨hknown, hmanifest, horphan, hcheck⟩ hvalid
    · exact absurd hmanifest hne
    · exact absurd horphan' horphan

theorem validatedAccount_of_not_found (h : ¬Found s c) :
    validatedAccount config s c =
      (checkAccount config (s.madeUp config c).account c, s.madeUp config c) := by
  obtain ⟨hunknown, hmanifest, horphan⟩ : s.known = false ∧ s.manifestError = none ∧
      ¬(s.orphan = true ∧ c.lifecycle ≠ .provisioning) := by
    simpa [Found] using h
  unfold validatedAccount
  rw [hmanifest]
  rw [if_neg horphan, if_neg (by simp [hunknown])]

def Decides (f : World → (Answer ⊕ α) × World) : Prop :=
  ∀ s, (∃ answer, f s = (.inl answer, s)) ∨ ∃ plan s₁, f s = (.inr plan, s₁)

/-- **What becomes of the first critical section.** The command is refused, or it goes on, or an account
is made up. -/
theorem outcome_of_alone (hk : ∀ answer, k (.inl answer) = pure answer) (hf : Decides f)
    (h : (criticalOr (entering config c f) >>= k).Alone Inert s result s') :
    (Found s c ∧ s' = s ∧ goesOn (entering config c f s) = false ∧
        (Valid config s c → ∃ answer, f s = (.inl answer, s))) ∨
      (Valid config s c ∧ ∃ plan s₁, f s = (.inr plan, s₁) ∧
        (k (.inr plan)).Alone Inert s₁ result s') ∨
      ¬Found s c ∧ (s' = s.madeUp config c ∨ ∃ plan s₁, f (s.madeUp config c) = (.inr plan, s₁) ∧
        (k (.inr plan)).Alone Inert s₁ result s') := by
  have hfirst : (∃ value, (entering config c f s).1 = .ok value ∧
      (k value).Alone Inert (entering config c f s).2 result s') ∨
      ∃ code, (entering config c f s).1 = .error code ∧ s' = (entering config c f s).2 := by
    rcases alone_bind.mp h with ⟨value, s₁, henter, hrest⟩ | ⟨code, henter, -⟩
    · obtain ⟨hvalue, rfl⟩ := alone_criticalOr.mp henter
      exact Or.inl ⟨value, hvalue.symm, hrest⟩
    · obtain ⟨hcode, rfl⟩ := alone_criticalOr.mp henter
      exact Or.inr ⟨code, hcode.symm, rfl⟩
  by_cases hvalid : Valid config s c
  · rw [entering_of_valid hvalid] at hfirst ⊢
    rcases hfirst with ⟨value, hvalue, hrest⟩ | ⟨code, hcode, -⟩
    · cases hvalue
      rcases hf s with ⟨answer, heq⟩ | ⟨plan, s₁, heq⟩
      · rw [heq, hk] at hrest
        exact Or.inl ⟨Or.inl hvalid.known, hrest.2, by rw [heq]; rfl, fun _ => ⟨answer, heq⟩⟩
      · rw [heq] at hrest
        exact Or.inr (Or.inl ⟨hvalid, plan, s₁, heq, hrest⟩)
    · cases hcode
  by_cases hfound : Found s c
  · obtain ⟨code, hcode⟩ := validatedAccount_of_found hfound hvalid
    have henter : entering config c f s = (.error code, s) := by
      rw [entering, hcode]
    rw [henter] at hfirst ⊢
    rcases hfirst with ⟨value, hvalue, -⟩ | ⟨_, -, hs'⟩
    · cases hvalue
    · exact Or.inl ⟨hfound, hs', rfl, fun h => absurd h hvalid⟩
  · refine Or.inr (Or.inr ⟨hfound, ?_⟩)
    have hmade := @validatedAccount_of_not_found config s c hfound
    cases hcheck : checkAccount config (s.madeUp config c).account c with
    | error code =>
      have henter : entering config c f s = (.error code, s.madeUp config c) := by
        rw [entering, hmade, hcheck]
      rw [henter] at hfirst
      rcases hfirst with ⟨value, hvalue, -⟩ | ⟨_, -, hs'⟩
      · cases hvalue
      · exact Or.inl hs'
    | ok value =>
      have henter : entering config c f s =
          (.ok (f (s.madeUp config c)).1, (f (s.madeUp config c)).2) := by
        rw [entering, hmade, hcheck]
      rw [henter] at hfirst
      rcases hfirst with ⟨value, hvalue, hrest⟩ | ⟨_, hcode, -⟩
      · cases hvalue
        rcases hf (s.madeUp config c) with ⟨answer, heq⟩ | ⟨plan, s₁, heq⟩
        · rw [heq, hk] at hrest
          exact Or.inl hrest.2
        · rw [heq] at hrest
          exact Or.inr ⟨plan, s₁, heq, hrest⟩
      · cases hcode

end Outcome

section Unchanged

variable {σ : Type} {config : Config} {reset : σ → σ} {s s' : World} {session : σ}
variable {c : AccountCommand} {result : Except ErrorCode Answer}

theorem entry_ne_of_not_found (hfound : ¬Found s c) (hknown : s'.known = true) (after : σ) :
    s'.entry after ≠ s.entry session := by
  have hunknown : s.known = false := by
    by_contra hne
    exact hfound (Or.inl (by simpa using hne))
  simp [World.entry, hunknown, hknown]

theorem unchanged_of_loud {α : Type} {f : World → (Answer ⊕ α) × World} {k : Answer ⊕ α → Cmd Answer}
    (hk : ∀ answer, k (.inl answer) = pure answer) (hf : Decides f)
    (hloud : ∀ plan s s', ¬(k (.inr plan)).Alone Inert s result s')
    (h : (criticalOr (entering config c f) >>= k).Alone Inert s result s') (after : σ)
    (hafter : goesOn (entering config c f s) = false → after = session) :
    s'.entry after = s.entry session ↔ Found s c := by
  rcases outcome_of_alone hk hf h with
    ⟨hfound, rfl, hends, -⟩ | ⟨-, plan, s₁, -, hrest⟩ | ⟨hfound, hmade⟩
  · rw [hafter hends]
    exact iff_of_true rfl hfound
  · exact absurd hrest (hloud plan s₁ s')
  · rcases hmade with rfl | ⟨plan, s₁, -, hrest⟩
    · exact iff_of_false (entry_ne_of_not_found hfound rfl after) hfound
    · exact absurd hrest (hloud plan s₁ s')

theorem decides_beginReconcile : Decides (beginReconcile config c) := by
  intro s
  rcases @beginReconcile_cases config s c with h | ⟨plan, account, h, -⟩
  · exact Or.inl h
  · exact Or.inr ⟨plan, _, h⟩

theorem decides_beginUpdateProxy : Decides (beginUpdateProxy config c) := by
  intro s
  rcases @beginUpdateProxy_cases config s c with h | ⟨intent, account, h, -⟩
  · exact Or.inl h
  · exact Or.inr ⟨intent, _, h⟩

theorem decides_beginRemove : Decides (beginRemove config c) := by
  intro s
  rcases @beginRemove_cases config s c with h | ⟨intent, new, account, h, -⟩
  · exact Or.inl h
  · exact Or.inr ⟨(intent, new), _, h⟩

theorem decides_beginLogout : Decides (beginLogout c) := by
  intro s
  rcases @beginLogout_cases s c with ⟨code, status, h⟩ | ⟨new, account, h, -⟩
  · exact Or.inl ⟨_, h⟩
  · exact Or.inr ⟨new, _, h⟩

theorem resumed_eq_iff {account : AccountState} (hfree : account.busy = false) :
    { resumed c account with busy := false } = account ↔ Settled c account := by
  constructor
  · intro h
    have hfingerprint := congrArg AccountState.revisionFingerprint h
    have hphase := congrArg AccountState.operationPhase h
    refine ⟨(congrArg AccountState.reconciled h).symm,
      congrArg AccountState.authorizationGeneration h, ?_, ?_⟩
    · intro hnone
      simp [resumed, hnone] at hfingerprint
    · intro hnone
      simp [resumed, hnone] at hphase
  · rintro ⟨hreconciled, hgeneration, hfingerprint, hphase⟩
    obtain ⟨fingerprint, hfingerprint⟩ := Option.ne_none_iff_exists'.mp hfingerprint
    unfold SameGeneration at hgeneration
    cases account
    simp_all [resumed]

theorem taken_eq_iff {account : AccountState} (hfree : account.busy = false) :
    { account with
      busy := false
      authorizationGeneration :=
        c.authorizationGeneration.getD account.authorizationGeneration } = account ↔
      SameGeneration c account := by
  constructor
  · exact fun h => congrArg AccountState.authorizationGeneration h
  · intro h
    unfold SameGeneration at h
    cases account
    simp_all

theorem entry_eq_iff (hknown : s.known = true) (hknown' : s'.known = true) {after : σ} :
    s'.entry after = s.entry session ↔ s'.account = s.account ∧ after = session := by
  simp [World.entry, hknown, hknown']

theorem goesOn_of_valid {α : Type} {f : World → (Answer ⊕ α) × World} (h : Valid config s c)
    {plan : α} {s₁ : World} (hf : f s = (.inr plan, s₁)) :
    goesOn (entering config c f s) = true := by
  rw [entering_of_valid h, hf]
  rfl

theorem unchanged_logout (h : (logout config c).Alone Inert s result s') :
    s'.entry (sessionAfter config reset (.logout c) s session) = s.entry session ↔
      Harmless config reset s session (.logout c) := by
  rcases outcome_of_alone (fun _ => rfl) decides_beginLogout h with
    ⟨hfound, rfl, hends, hrefused⟩ | ⟨hvalid, new, s₁, hbegin, hrest⟩ | ⟨hfound, hmade⟩
  · have hafter : sessionAfter config reset (.logout c) s' session = session := by
      simp [sessionAfter, hends]
    rw [hafter]
    refine iff_of_true rfl ⟨hfound, fun ⟨hvalid, hresumes⟩ => ?_⟩
    -- where it is resumed it is not refused
    obtain ⟨answer, hanswer⟩ := hrefused hvalid
    rw [beginLogout_of_resumes hresumes] at hanswer
    cases hanswer
  · obtain ⟨hnew, rfl⟩ := alone_logout_rest hrest
    subst hnew
    have hresumes : Resumes c s.account := by
      by_contra hne
      rcases beginLogout_of_not_resumes hne with ⟨answer, heq⟩ | ⟨s₂, heq⟩
      · rw [hbegin] at heq
        cases heq
      · rw [hbegin] at heq
        cases heq
    rw [beginLogout_of_resumes hresumes] at hbegin
    cases hbegin
    have hafter : sessionAfter config reset (.logout c) s session = reset session := by
      rw [sessionAfter, goesOn_of_valid hvalid (beginLogout_of_resumes hresumes)]
      rfl
    rw [hafter]
    refine Iff.trans (entry_eq_iff hvalid.known ?_) ?_
    · exact hvalid.known
    constructor
    · rintro ⟨haccount, hsession⟩
      exact ⟨Or.inl hvalid.known, fun _ => ⟨(resumed_eq_iff hresumes.free).mp haccount, hsession⟩⟩
    · rintro ⟨-, hharmless⟩
      obtain ⟨hsettled, hsession⟩ := hharmless ⟨hvalid, hresumes⟩
      exact ⟨(resumed_eq_iff hresumes.free).mpr hsettled, hsession⟩
  · refine iff_of_false ?_ fun hharmless => hfound hharmless.1
    rcases hmade with rfl | ⟨new, s₁, hbegin, hrest⟩
    · exact entry_ne_of_not_found hfound rfl _
    · -- the account that is made up is not about to be logged out
      have hne : ¬Resumes c (s.madeUp config c).account := fun hresumes =>
        absurd hresumes.lifecycle (by simp [World.madeUp])
      obtain ⟨rfl, -⟩ := alone_logout_rest hrest
      rcases beginLogout_of_not_resumes hne with ⟨answer, heq⟩ | ⟨s₂, heq⟩
      · rw [hbegin] at heq
        cases heq
      · rw [hbegin] at heq
        cases heq

theorem beginAuthorization_cases (valid : Bool) (s : World) :
    (∃ answer, (if valid then beginAuthorization c s
        else (.inl (.failed .authorizationInvalidState 409), s)) = (.inl answer, s) ∧
        ¬(valid = true ∧ s.account.reconciled = true ∧ s.account.busy = false)) ∨
      (if valid then beginAuthorization c s
        else (.inl (.failed .authorizationInvalidState 409), s)) =
          (.inr s.account.clientId,
            { s with
              account :=
                { s.account with
                  busy := true
                  authorizationGeneration := c.authorizationGeneration.getD
                    s.account.authorizationGeneration } }) ∧
        valid = true ∧ s.account.reconciled = true ∧ s.account.busy = false := by
  cases valid with
  | false => exact Or.inl ⟨_, rfl, by simp⟩
  | true =>
    rw [if_pos rfl]
    unfold beginAuthorization
    dsimp only
    split
    · rename_i hreconciled
      exact Or.inl ⟨_, rfl, fun h => by simp [h.2.1] at hreconciled⟩
    rename_i hreconciled
    split
    · rename_i hbusy
      exact Or.inl ⟨_, rfl, fun h => by simp [h.2.2] at hbusy⟩
    rename_i hfree
    exact Or.inr ⟨rfl, rfl, by simpa using hreconciled, by simpa using hfree⟩

theorem unchanged_authorization {valid : Bool}
    (h : (authorizationAction config c valid).Alone Inert s result s') :
    s'.entry (sessionAfter config reset (.authorization c valid) s session) = s.entry session ↔
      Harmless config reset s session (.authorization c valid) := by
  have hdecides : Decides fun s => if valid then beginAuthorization c s
      else (.inl (.failed .authorizationInvalidState 409), s) := fun s => by
    rcases beginAuthorization_cases (c := c) valid s with ⟨answer, heq, -⟩ | ⟨heq, -⟩
    · exact Or.inl ⟨answer, heq⟩
    · exact Or.inr ⟨_, _, heq⟩
  rcases outcome_of_alone (fun _ => rfl) hdecides h with
    ⟨hfound, rfl, -, hrefused⟩ | ⟨hvalid, client, s₁, hbegin, hrest⟩ | ⟨hfound, hmade⟩
  · refine iff_of_true rfl ⟨hfound, fun ⟨hvalid, htaken⟩ => ?_⟩
    obtain ⟨answer, hanswer⟩ := hrefused hvalid
    rcases beginAuthorization_cases (c := c) valid s' with ⟨_, -, hne⟩ | ⟨heq, -⟩
    · exact absurd htaken hne
    · rw [heq] at hanswer
      cases hanswer
  · rcases beginAuthorization_cases (c := c) valid s with ⟨_, heq, -⟩ | ⟨heq, htaken⟩
    · rw [heq] at hbegin
      cases hbegin
    · rw [heq] at hbegin
      cases hbegin
      obtain rfl := alone_authorization_rest hrest
      refine Iff.trans (entry_eq_iff hvalid.known ?_) ?_
      · exact hvalid.known
      constructor
      · rintro ⟨haccount, -⟩
        exact ⟨Or.inl hvalid.known, fun _ => (taken_eq_iff htaken.2.2).mp haccount⟩
      · rintro ⟨-, hharmless⟩
        exact ⟨(taken_eq_iff htaken.2.2).mpr (hharmless ⟨hvalid, htaken⟩), rfl⟩
  · refine iff_of_false ?_ fun hharmless => hfound hharmless.1
    rcases hmade with rfl | ⟨client, s₁, hbegin, -⟩
    · exact entry_ne_of_not_found hfound rfl _
    · -- the account that is made up is not reconciled
      rcases beginAuthorization_cases (c := c) valid (s.madeUp config c) with
        ⟨_, heq, -⟩ | ⟨-, -, hreconciled, -⟩
      · rw [heq] at hbegin
        cases hbegin
      · cases hreconciled

theorem alone_first_congr {α : Type} {g g' : World → Except ErrorCode α × World}
    {k : α → Cmd Answer} (heq : g s = g' s) (h : (criticalOr g >>= k).Alone Inert s result s') :
    (criticalOr g' >>= k).Alone Inert s result s' := by
  rw [alone_bind] at h ⊢
  simp only [alone_criticalOr] at h ⊢
  rwa [heq] at h

theorem unchanged_remove (h : (remove config c).Alone Inert s result s') :
    s'.entry (sessionAfter config reset (.remove c) s session) = s.entry session ↔ Found s c := by
  by_cases hremoved : s.known = true ∧ s.account.tombstone = true
  · obtain ⟨answer, henter⟩ : ∃ answer, enterRemove config c s = (.ok (.inl answer), s) := by
      unfold enterRemove
      rw [if_pos hremoved]
      split
      · exact ⟨_, rfl⟩
      · exact ⟨_, rfl⟩
    have hsame : s' = s := by
      rcases alone_bind.mp h with ⟨value, s₁, hfirst, hrest⟩ | ⟨code, hfirst, -⟩
      · obtain ⟨hvalue, rfl⟩ := alone_criticalOr.mp hfirst
        rw [henter] at hvalue hrest
        cases hvalue
        exact hrest.2
      · rw [(alone_criticalOr.mp hfirst).2, henter]
    have hafter : sessionAfter config reset (.remove c) s session = session := by
      simp [sessionAfter, henter, goesOn]
    rw [hafter, hsame]
    exact iff_of_true rfl (Or.inl hremoved.1)
  · have henter : enterRemove config c s = entering config c (beginRemove config c) s :=
      if_neg hremoved
    refine unchanged_of_loud (fun _ => rfl) decides_beginRemove ?_ (alone_first_congr henter h) _ ?_
    · rintro ⟨intent, newOperation⟩ s₁ s₂ hrest
      cases newOperation with
      | true | false =>
        obtain ⟨reply, hquiet, -⟩ := hrest
        exact hquiet
    · intro hends
      simp [sessionAfter, henter, hends]

/-- **Commands that are rejected.** A command that ends before anything is written, and before TDLib is
asked for anything, leaves its entry of `accounts_` as it was just where it is harmless. -/
theorem unchanged_iff (config : Config) (reset : σ → σ) (command : Command) (session : σ)
    (h : (command.program config).Alone Inert s result s') :
    s'.entry (sessionAfter config reset command s session) = s.entry session ↔
      Harmless config reset s session command := by
  cases command with
  | reconcile c =>
    refine unchanged_of_loud (fun _ => rfl) decides_beginReconcile ?_ h _ fun _ => rfl
    exact fun plan s s' => not_alone_reconcile
  | logout c => exact unchanged_logout h
  | updateProxy c =>
    refine unchanged_of_loud (fun _ => rfl) decides_beginUpdateProxy ?_ h _ fun _ => rfl
    rintro intent s₁ s₂ ⟨reply, hquiet, -⟩
    exact hquiet
  | remove c => exact unchanged_remove h
  | authorization c valid => exact unchanged_authorization h

end Unchanged

/-- A `logout` that is resumed where there is no configuration, for an account that it changed before. -/
theorem unchanged_resumed :
    let c : AccountCommand := { generation := 1, revision := 2, logoutOperationId := some 7 }
    let s : World :=
      { known := true
        account :=
          { generation := 1
            revision := 2
            lifecycle := .logoutPending
            operationId := some 7
            operationPhase := .intent
            revisionFingerprint := some (c.fingerprint true) } }
    s.entry (sessionAfter {} (fun _ => []) (.logout c) s ([] : List ℕ)) = s.entry [] := by
  intro c s
  have h : ((Command.logout c).program {}).Alone Inert s (.error (.configuration .missing)) s :=
    ⟨.done, trivial, .done, trivial, .done, trivial, .done, trivial, rfl, rfl⟩
  refine (unchanged_iff {} (fun _ => []) (.logout c) [] h).mpr ⟨Or.inl rfl, fun _ => ⟨?_, rfl⟩⟩
  exact ⟨rfl, rfl, nofun, nofun⟩

/-- A command to restore an account that is not there is refused, and the account is made up for it. A
command with another generation is taken before it, and refused after it. -/
theorem made_up_refused :
    let command : AccountCommand :=
      { generation := 1, revision := 1, lifecycle := .active, restore := true }
    let later : AccountCommand := { generation := 2, revision := 1 }
    let s : World := {}
    let s' : World := s.madeUp sampleConfig command
    ((Command.reconcile command).program sampleConfig).Alone Inert s
        (.ok (.failed (.storage .missing) 409)) s' ∧
      s'.entry () ≠ s.entry () ∧
      goesOn (entering sampleConfig later (beginReconcile sampleConfig later) s) = true ∧
      (entering sampleConfig later (beginReconcile sampleConfig later) s').1 =
        .error (.storage .identityMismatch) := by
  refine ⟨⟨.done, trivial, rfl, rfl⟩, by decide, by decide, by decide⟩

end Runtime
