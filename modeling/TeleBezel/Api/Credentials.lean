import TeleBezel.Api.OwnerAccess

/-!
# The credentials of the owner

Whoever sends which requests, at whatever times: every token has the permissions of its type, at most
twenty devices have access, no two tokens share their id or their hash, and a request that was
authenticated with the token of a device makes no credential.
-/

open List

namespace Api.OwnerAccess

open Transition

def AccessToken.admitsDevice (instanceId : String) (token : AccessToken) : Bool :=
  token.instanceId = instanceId && token.type = .device && token.revokedAt.isNone

/-- What a token is made with: the permissions of its type, and no end if it is that of a device. -/
def AccessToken.Issued (token : AccessToken) : Prop :=
  token.permissions = token.type.permissions ∧
    (token.type = .device → token.expiresAt = none ∧ token.idleTimeoutSeconds = none)

/-- What every run keeps of the tokens, and of the requests that were authenticated with them. -/
structure Regular (s : State) : Prop where
  ids : (s.tokens.map (·.id)).Nodup
  hashes : (s.tokens.map (·.hash)).Nodup
  issued : ∀ token ∈ s.tokens, token.Issued
  devices : ∀ instanceId, s.tokens.countP (·.admitsDevice instanceId) ≤ deviceLimit
  requests : ∀ request, ∀ principal ∈ s.requests request,
    principal.permissions = principal.type.permissions ∧
      ∃ token ∈ s.tokens, token.id = principal.id ∧ token.type = principal.type ∧
        token.instanceId = principal.instanceId

/-- A change of a row that tells when it was used or revoked, and gives no access back. -/
def Keeps (f : AccessToken → AccessToken) : Prop :=
  ∀ token, ∃ lastActiveAt revokedAt, f token = { token with lastActiveAt, revokedAt } ∧
    (revokedAt = none → token.revokedAt = none)

theorem keeps_ite {p : AccessToken → Prop} [DecidablePred p] {f : AccessToken → AccessToken}
    (h : Keeps f) : Keeps fun token => if p token then f token else token := by
  intro token
  dsimp only
  split_ifs
  · exact h token
  · exact ⟨_, _, rfl, id⟩

theorem keeps_revoked (now : ℕ) : Keeps (AccessToken.revoked now) :=
  fun token => ⟨_, _, rfl, fun hopen => absurd hopen (revokedAt_revoked token)⟩

theorem keeps_active (now : ℕ) : Keeps fun token => { token with lastActiveAt := some now } :=
  fun _ => ⟨_, _, rfl, id⟩

theorem Keeps.comp {α : Type} {f : AccessToken → AccessToken} (h : Keeps f) (g : AccessToken → α)
    (hg : ∀ token lastActiveAt revokedAt, g { token with lastActiveAt, revokedAt } = g token) :
    g ∘ f = g := by
  funext token
  obtain ⟨_, _, heq, -⟩ := h token
  rw [Function.comp, heq, hg]

namespace Regular

variable {matching : Check} {s s' : State} {now : ℕ}

theorem map (h : Regular s) {f : AccessToken → AccessToken} (hf : Keeps f) :
    Regular { s with tokens := s.tokens.map f } where
  ids := by
    rw [map_map, hf.comp _ fun _ _ _ => rfl]
    exact h.ids
  hashes := by
    rw [map_map, hf.comp _ fun _ _ _ => rfl]
    exact h.hashes
  issued token hmem := by
    obtain ⟨before, hbefore, rfl⟩ := mem_map.mp hmem
    obtain ⟨_, _, heq, -⟩ := hf before
    rw [heq]
    exact h.issued before hbefore
  devices instanceId := by
    rw [countP_map]
    refine (countP_mono_left fun token _ hdevice => ?_).trans (h.devices instanceId)
    obtain ⟨_, revokedAt, heq, hopen⟩ := hf token
    simp only [Function.comp, heq, AccessToken.admitsDevice, Bool.and_eq_true,
      Option.isNone_iff_eq_none] at hdevice ⊢
    exact ⟨hdevice.1, hopen hdevice.2⟩
  requests request principal hprincipal := by
    obtain ⟨hpermissions, token, hmem, hsame⟩ := h.requests request principal hprincipal
    obtain ⟨_, _, heq, -⟩ := hf token
    exact ⟨hpermissions, f token, mem_map_of_mem hmem, by rw [heq]; exact hsame⟩

theorem nodup_snoc {α : Type} (g : AccessToken → α) {tokens : List AccessToken} {token : AccessToken}
    (h : (tokens.map g).Nodup) (hnew : ∀ other ∈ tokens, g other ≠ g token) :
    ((tokens ++ [token]).map g).Nodup := by
  rw [map_append, nodup_append]
  refine ⟨h, pairwise_singleton _ _, ?_⟩
  rintro _ hold _ hlast rfl
  obtain ⟨other, hother, heq⟩ := mem_map.mp hold
  exact hnew other hother (heq.trans (mem_singleton.mp hlast))

section

variable (h : Regular s)
include h

theorem issue {token : AccessToken} (hissue : token.Issued)
    (hroom : ∀ instanceId, token.admitsDevice instanceId →
      s.tokens.countP (·.admitsDevice instanceId) < deviceLimit)
    (hissued : s.issue token = some s') : Regular s' := by
  unfold State.issue at hissued
  split_ifs at hissued with hadmits
  cases hissued
  simp only [State.admits, all_eq_true, Bool.and_eq_true, decide_eq_true_eq] at hadmits
  refine ⟨nodup_snoc _ h.ids fun other hmem => (hadmits other hmem).1,
    nodup_snoc _ h.hashes fun other hmem => (hadmits other hmem).2, ?_, fun instanceId => ?_, ?_⟩
  · exact forall_mem_append.mpr ⟨h.issued, forall_mem_singleton.mpr hissue⟩
  · -- the count of an instance grows only with a device of its own
    rw [countP_append, countP_singleton]
    split_ifs with hdevice
    · exact hroom instanceId hdevice
    · exact h.devices instanceId
  · intro request principal hprincipal
    obtain ⟨hown, other, hmem, hsame⟩ := h.requests request principal hprincipal
    exact ⟨hown, other, mem_append_left _ hmem, hsame⟩

theorem issueWebSession {instanceId : String} {fresh : Fresh} {authority : ℕ}
    (hissued : s.issueWebSession now instanceId fresh authority = some s') : Regular s' := by
  refine h.issue ?_ (fun instanceId hdevice => ?_) hissued
  · exact ⟨rfl, nofun⟩
  · simp [AccessToken.admitsDevice] at hdevice

theorem issueDevice {instanceId : String} {fresh : Fresh} {authority : ℕ}
    (hissued : s.issueDevice now instanceId fresh authority = some s') : Regular s' := by
  unfold State.issueDevice at hissued
  split_ifs at hissued with howner hlimit
  refine h.issue ⟨rfl, fun _ => ⟨rfl, rfl⟩⟩ (fun other hdevice => ?_) hissued
  simp only [AccessToken.admitsDevice, Bool.and_eq_true, decide_eq_true_eq] at hdevice
  obtain rfl := hdevice.1.1
  -- devices do not run out, so that the limit counts all that are not revoked
  have hactive : s.activeCount now instanceId .device =
      s.tokens.countP (·.admitsDevice instanceId) := by
    refine countP_congr fun token hmem => ?_
    simp only [AccessToken.admitsDevice, Bool.and_eq_true, decide_eq_true_eq, and_iff_left_iff_imp]
    intro hopen
    rw [((h.issued token hmem).2 hopen.1.2).1]
    rfl
  rw [← hactive]
  exact Nat.not_le.mp hlimit

theorem of_requests (request : ℕ) : Regular (s.close request) := by
  refine ⟨h.ids, h.hashes, h.issued, h.devices, fun other principal hprincipal => ?_⟩
  simp only [State.close, Function.update_apply] at hprincipal
  split_ifs at hprincipal
  · cases hprincipal
  · exact h.requests other principal hprincipal

theorem authenticate (request : ℕ) (hash : String) :
    Regular (s.authenticate now request hash) := by
  unfold State.authenticate
  split
  · exact h
  · next token hfound =>
    have hmem := mem_of_find?_eq_some hfound
    split_ifs
    · exact h.map (keeps_ite (keeps_revoked now))
    · refine ⟨h.ids, h.hashes, h.issued, h.devices, fun other principal hprincipal => ?_⟩
      simp only [Function.update_apply] at hprincipal
      split_ifs at hprincipal
      · obtain rfl := Option.some.inj hprincipal
        exact ⟨(h.issued token hmem).1, token, hmem, rfl, rfl, rfl⟩
      · exact h.requests other principal hprincipal

theorem act {principal : Principal} {action : Action}
    (hs : s.act now principal action = some s') : Regular s' := by
  cases action with
  | createDevice fresh => exact h.issueDevice hs
  | revokeDevice id =>
    obtain rfl := Option.some.inj hs
    exact h.map (keeps_ite (keeps_revoked now))
  | rotateRecoveryCode recoveryHash =>
    obtain ⟨owner, -, hs⟩ := Option.bind_eq_some_iff.mp hs
    split_ifs at hs
    obtain rfl := Option.some.inj hs
    exact ⟨h.ids, h.hashes, h.issued, h.devices, h.requests⟩
  | activity =>
    obtain rfl := Option.some.inj hs
    exact h.map (keeps_ite (keeps_active now))
  | logout =>
    obtain rfl := Option.some.inj hs
    exact h.map (keeps_ite (keeps_revoked now))

end

theorem getD {result : Option State} (h : Regular s) (hresult : ∀ s', result = some s' → Regular s') :
    Regular (result.getD s) := by
  cases result with
  | none => exact h
  | some s' => exact hresult s' rfl

theorem step (h : Regular s) (event : ℕ × Event) : Regular (OwnerAccess.step matching s event) := by
  obtain ⟨now, event⟩ := event
  cases event with
  | bootstrapCode code =>
    exact ⟨h.ids, h.hashes, h.issued, h.devices, h.requests⟩
  | bootstrap codeHash newId passwordHash recoveryHash fresh =>
    refine h.getD fun s' hs => ?_
    obtain ⟨entry, -, hs⟩ := Option.bind_eq_some_iff.mp hs
    split_ifs at hs
    refine issueWebSession ?_ hs
    exact ⟨h.ids, h.hashes, h.issued, h.devices, h.requests⟩
  | login password fresh =>
    refine h.getD fun s' hs => ?_
    obtain ⟨owner, -, hs⟩ := Option.bind_eq_some_iff.mp hs
    obtain ⟨hash, -, hs⟩ := Option.bind_eq_some_iff.mp hs
    split_ifs at hs
    exact h.issueWebSession hs
  | recover code passwordHash recoveryHash fresh =>
    refine h.getD fun s' hs => ?_
    obtain ⟨owner, -, hs⟩ := Option.bind_eq_some_iff.mp hs
    obtain ⟨hash, -, hs⟩ := Option.bind_eq_some_iff.mp hs
    split_ifs at hs
    have hrevoked := h.map (keeps_ite (p := fun token => token.instanceId = owner.id) (keeps_revoked now))
    refine issueWebSession ?_ hs
    exact ⟨hrevoked.ids, hrevoked.hashes, hrevoked.issued, hrevoked.devices, hrevoked.requests⟩
  | authenticate request hash => exact h.authenticate request hash
  | perform request action =>
    simp only [OwnerAccess.step]
    split
    · exact h
    · split_ifs
      · exact (h.getD fun s' hs => h.act hs).of_requests request
      · exact h.of_requests request

/-- **The token of a device makes no credential**: it may only tell that it is in use, and log out. -/
theorem step_device (h : Regular s) {request : ℕ} {principal : Principal}
    (hprincipal : s.requests request = some principal) (hdevice : principal.type = .device)
    (action : Action) :
    let s' := OwnerAccess.step matching s (now, .perform request action)
    s'.owner = s.owner ∧ s'.tokens.map (·.id) = s.tokens.map (·.id) := by
  have hpermissions := (h.requests request principal hprincipal).1
  rw [hdevice] at hpermissions
  have hmap : ∀ {f : AccessToken → AccessToken}, Keeps f →
      (s.tokens.map f).map (·.id) = s.tokens.map (·.id) := by
    intro f hf
    rw [map_map, hf.comp _ fun _ _ _ => rfl]
  -- what makes a credential asks for a permission that no device has
  simp only [OwnerAccess.step, hprincipal, Action.permitted, hpermissions]
  cases action with
  | createDevice fresh | revokeDevice id | rotateRecoveryCode recoveryHash => exact ⟨rfl, rfl⟩
  | activity => exact ⟨rfl, hmap (keeps_ite (keeps_active now))⟩
  | logout => exact ⟨rfl, hmap (keeps_ite (keeps_revoked now))⟩

end Regular

/-- **The credentials are regular in every state of a run**, and no request of a device makes one. -/
theorem credentials_of_run (matching : Check) (events : List (ℕ × Event)) :
    let s := events.foldl (step matching) {}
    Regular s ∧ ∀ now request action, ∀ principal ∈ s.requests request, principal.type = .device →
      let s' := step matching s (now, .perform request action)
      s'.owner = s.owner ∧ s'.tokens.map (·.id) = s.tokens.map (·.id) := by
  intro s
  have hregular : Regular s := by
    apply foldlRecOn events (step matching)
    · exact ⟨nodup_nil, nodup_nil, nofun, fun _ => Nat.zero_le _, nofun⟩
    · exact fun s h event _ => h.step event
  exact ⟨hregular, fun now request action principal hprincipal hdevice =>
    hregular.step_device hprincipal hdevice action⟩

end Api.OwnerAccess
