import TeleBezel.Api.Reconcile
import TeleBezel.Lib.Transition

/-!
# One configuration for a revision

Whoever changes what an account is given assigns it a new `effective_config_id` in the same
transaction, so a row that is read stands for what is in force at that moment. A command, though,
is made of a row and of a configuration that were read one after the other. It carries what was
assigned when the configuration still gives, for this account, what was in force when the row was
read; a pass that reads its configuration before a settings update and the row after it sends the
new revision with the old configuration.
-/

open List

namespace Api.Reconcile

open Api Transition

variable {s : State}

def assignment (account : AccountData) (config : Configuration) : Assignment :=
  ⟨account.id, account.effectiveConfigId, effective account config⟩

/-- What was in force for a row when it was read was assigned with its `effective_config_id`. -/
def Held.Sound (s : State) (held : Held) : Prop :=
  held.account.lifecycle ≠ .removed →
    (⟨held.account.id, held.account.effectiveConfigId, held.inForce⟩ : Assignment) ∈ s.assigned

def Job.Sound (s : State) (job : Job) : Prop :=
  job.held.Sound s ∧ ∀ config batch, job.later = some (config, batch) → ∀ held ∈ batch, held.Sound s

def Purpose.Sound (s : State) : Purpose → Prop
  | .retry job => job.Sound s
  | .apply => True

def SentFor (s : State) (account : AccountData) (sent : Command) : Prop :=
  sent ∈ s.commands ∧ sent.uuid = account.id ∧ sent.revision = account.desiredRevision ∧
    sent.effectiveConfigId = account.effectiveConfigId

/-- What a task rests on: the rows it holds stand for what was assigned, and what it waits for was
sent. -/
def Task.Sound (s : State) : Task → Prop
  | .finding _ purpose => purpose.Sound s
  | .found held purpose => held.Sound s ∧ held.account.lifecycle ≠ .removed ∧ purpose.Sound s
  | .configuring held => ∀ h, held = some h → h.Sound s
  | .settingsRead held _ => ∀ h, held = some h → h.Sound s
  | .pass _ batch => ∀ held ∈ batch, held.Sound s
  | .commanding job _ => job.Sound s ∧ job.held.account.lifecycle ≠ .removed
  | .commanded job sent => job.Sound s ∧ SentFor s job.held.account sent
  | .abandoning job => job.Sound s
  | .confirming job sent _ => job.Sound s ∧ SentFor s job.held.account sent

structure Sound (s : State) : Prop where
  ids : ∀ a ∈ s.accounts, ∀ b ∈ s.accounts, a.id = b.id → a = b
  active : ∀ id, s.settings.activeProxyProfileId = some id → (s.profiles id).isSome
  inForce : ∀ a ∈ s.accounts, a.lifecycle ≠ .removed → assignment a s.configuration ∈ s.assigned
  unique : ∀ x ∈ s.assigned, ∀ y ∈ s.assigned, x.account = y.account →
    x.effectiveConfigId = y.effectiveConfigId → x = y
  task : ∀ n task, s.tasks n = some task → task.Sound s
  command : ∀ sent ∈ s.commands,
    (⟨sent.uuid, sent.effectiveConfigId, sent.given⟩ : Assignment) ∈ s.assigned
  confirmed : ∀ row sent, (row, sent) ∈ s.confirmed →
    SentFor s row sent ∧ row.appliedRevision = some sent.revision

section Frame

variable {s' : State}

theorem Job.Sound.mono {job : Job} (hassigned : ∀ x ∈ s.assigned, x ∈ s'.assigned)
    (h : job.Sound s) : job.Sound s' :=
  ⟨fun hlive => hassigned _ (h.1 hlive),
    fun config batch hlater held hheld hlive =>
      hassigned _ (h.2 config batch hlater held hheld hlive)⟩

theorem Purpose.Sound.mono {purpose : Purpose} (hassigned : ∀ x ∈ s.assigned, x ∈ s'.assigned)
    (h : purpose.Sound s) : purpose.Sound s' := by
  cases purpose with
  | retry job => exact Job.Sound.mono hassigned h
  | apply => trivial

theorem Task.Sound.mono {task : Task} (hassigned : ∀ x ∈ s.assigned, x ∈ s'.assigned)
    (hcommands : ∀ x ∈ s.commands, x ∈ s'.commands) (h : task.Sound s) : task.Sound s' := by
  cases task with
  | finding id purpose => exact Purpose.Sound.mono hassigned h
  | found held purpose =>
    exact ⟨fun hlive => hassigned _ (h.1 hlive), h.2.1, h.2.2.mono hassigned⟩
  | configuring held | settingsRead held settings | pass config batch =>
    exact fun x hx hlive => hassigned _ (h x hx hlive)
  | commanding job kind => exact ⟨h.1.mono hassigned, h.2⟩
  | commanded job sent => exact ⟨h.1.mono hassigned, hcommands _ h.2.1, h.2.2⟩
  | abandoning job => exact Job.Sound.mono hassigned h
  | confirming job sent data => exact ⟨h.1.mono hassigned, hcommands _ h.2.1, h.2.2⟩

end Frame

section Tasks

variable {process : ℕ} {task : Task} {job : Job}

section

variable (h : Sound s)
include h

theorem Sound.withTasks {tasks : ℕ → Option Task} {next : ℕ}
    (htasks : ∀ n task, tasks n = some task → task.Sound s) :
    Sound { s with tasks, next } := by
  refine { h with task := ?_ }
  intro n task htask
  exact (htasks n task htask).mono (fun _ hx => hx) (fun _ hx => hx)

theorem Sound.goOn (htask : task.Sound s) : Sound (s.goOn process task) := by
  refine h.withTasks ?_
  intro n other hother
  by_cases hn : n = process
  · subst hn
    obtain rfl : task = other := by simpa using hother
    exact htask
  · rw [Function.update_of_ne hn] at hother
    exact h.task n other hother

theorem Sound.drop : Sound (s.drop process) := by
  refine h.withTasks ?_
  intro n other hother
  by_cases hn : n = process
  · subst hn
    simp at hother
  · rw [Function.update_of_ne hn] at hother
    exact h.task n other hother

theorem Sound.begin (htask : task.Sound s) : Sound (s.begin task) := by
  have hgoOn : Sound (s.goOn s.next task) := h.goOn htask
  exact hgoOn.withTasks hgoOn.task

theorem Sound.resumed (hjob : job.Sound s) : Sound (s.resume process job) := by
  unfold State.resume
  split
  · rename_i config batch hlater
    exact h.goOn (hjob.2 config batch hlater)
  · exact h.drop

theorem Sound.intended (hjob : job.Sound s) : Sound (s.intend process job) := by
  unfold State.intend
  split <;> rename_i hlifecycle
  · exact h.resumed hjob
  all_goals exact h.goOn ⟨hjob, by rw [hlifecycle]; decide⟩

theorem Sound.thrown (hjob : job.Sound s) {errorCode : String} :
    Sound (s.throw process job errorCode) := by
  unfold State.throw
  split
  · exact h.goOn hjob
  · exact h.resumed hjob

end

end Tasks

structure Keeps (a b : AccountData) : Prop where
  id : b.id = a.id
  live : b.lifecycle ≠ .removed → a.lifecycle ≠ .removed ∧
    b.effectiveConfigId = a.effectiveConfigId ∧ b.proxyId = a.proxyId ∧
    b.proxyConfig = a.proxyConfig ∧ b.proxyConfigVersion = a.proxyConfigVersion

theorem Keeps.refl (a : AccountData) : Keeps a a := ⟨rfl, fun hlive => ⟨hlive, rfl, rfl, rfl, rfl⟩⟩

theorem Keeps.assignment_eq {a b : AccountData} (h : Keeps a b) (hlive : b.lifecycle ≠ .removed)
    (config : Configuration) : assignment b config = assignment a config := by
  obtain ⟨-, hconfig, hproxyId, hproxyConfig, hversion⟩ := h.live hlive
  simp [assignment, effective, h.id, hconfig, hproxyId, hproxyConfig, hversion]

section Transitions

variable (a : AccountData)

theorem keeps_logout (operation : Uuid) : Keeps a (((a.logout operation).toOption).getD a) := by
  obtain ⟨id, generation, lifecycle, desired, applied, proxyId, config, version⟩ := a
  -- an account that is on its way out refuses
  cases lifecycle with
  | provisioning | active => exact ⟨rfl, fun _ => ⟨nofun, rfl, rfl, rfl, rfl⟩⟩
  | logoutPending | removing | removed => exact Keeps.refl _

theorem keeps_remove (operation : Uuid) : Keeps a (a.remove operation) := by
  unfold AccountData.remove
  split
  · exact Keeps.refl a
  · rename_i hlive
    exact ⟨rfl, fun _ => ⟨fun hremoved => hlive (Or.inr hremoved), rfl, rfl, rfl, rfl⟩⟩

variable (expected : AccountData)

theorem keeps_abandonLogout (operation : Uuid) :
    Keeps a (a.abandonLogout expected operation) := by
  unfold AccountData.abandonLogout
  split
  · exact Keeps.refl a
  · rename_i hpending
    refine ⟨rfl, fun _ => ⟨?_, rfl, rfl, rfl, rfl⟩⟩
    intro hremoved
    simp [hremoved] at hpending

theorem keeps_applySnapshot (snapshot : Snapshot) :
    Keeps a (a.applySnapshot snapshot) ∧ (a.applySnapshot snapshot).lifecycle = a.lifecycle := by
  unfold AccountData.applySnapshot
  split
  · exact ⟨Keeps.refl a, rfl⟩
  · dsimp only
    split <;> exact ⟨⟨rfl, fun hlive => ⟨hlive, rfl, rfl, rfl, rfl⟩⟩, rfl⟩

theorem applySnapshot_identity (snapshot : Snapshot) : (a.applySnapshot snapshot).id = a.id ∧
    (a.applySnapshot snapshot).desiredRevision = a.desiredRevision ∧
    (a.applySnapshot snapshot).effectiveConfigId = a.effectiveConfigId := by
  unfold AccountData.applySnapshot
  split
  · exact ⟨rfl, rfl, rfl⟩
  · dsimp only
    split <;> exact ⟨rfl, rfl, rfl⟩

theorem keeps_confirm (data : Snapshot) :
    Keeps a (a.confirm expected data) := by
  unfold AccountData.confirm
  split
  · exact Keeps.refl a
  · rename_i hconfirms
    have hlive : a.lifecycle ≠ .removed := by
      intro hremoved
      simp [AccountData.confirms, hremoved] at hconfirms
    obtain ⟨⟨hid, hkeeps⟩, hlifecycle⟩ := keeps_applySnapshot a data
    obtain ⟨-, hconfig, hproxy⟩ := hkeeps (by rw [hlifecycle]; exact hlive)
    dsimp only
    -- a removal that is complete leaves nothing to command; the rest keeps the changes
    by_cases happlied : data.appliedRevision = some expected.desiredRevision
    · rw [if_pos happlied]
      repeat' split
      · exact ⟨rfl, fun hremoved => absurd rfl hremoved⟩
      all_goals exact ⟨hid, fun _ => ⟨hlive, hconfig, hproxy⟩⟩
    · rw [if_neg happlied]
      repeat' split
      · exact ⟨rfl, fun hremoved => absurd rfl hremoved⟩
      all_goals exact ⟨hid, fun _ => ⟨hlive, hconfig, hproxy⟩⟩

theorem confirm_applied {a expected : AccountData} {data : Snapshot}
    (hconfirms : a.confirms expected data)
    (happlied : data.appliedRevision = some expected.desiredRevision) :
    (a.confirm expected data).id = a.id ∧
      (a.confirm expected data).desiredRevision = expected.desiredRevision ∧
      (a.confirm expected data).effectiveConfigId = expected.effectiveConfigId ∧
      (a.confirm expected data).appliedRevision = some expected.desiredRevision := by
  have hexpected : a.desiredRevision = expected.desiredRevision ∧
      a.effectiveConfigId = expected.effectiveConfigId := by
    simp only [AccountData.confirms, Bool.and_eq_true, decide_eq_true_eq] at hconfirms
    exact ⟨hconfirms.1.1.1.2, hconfirms.1.2⟩
  obtain ⟨hid, hrevision, hconfig⟩ := applySnapshot_identity a data
  unfold AccountData.confirm
  rw [if_neg (not_not.mpr hconfirms)]
  dsimp only
  rw [if_pos happlied]
  repeat' split
  · exact ⟨rfl, hexpected.1, hexpected.2, happlied⟩
  all_goals exact ⟨hid, hrevision.trans hexpected.1, hconfig.trans hexpected.2, happlied⟩

end Transitions

section Tables

theorem mem_of_find? {id : Uuid} {a : AccountData} (hfound : s.find? id = some a) :
    a ∈ s.accounts ∧ a.id = id :=
  ⟨mem_of_find?_eq_some hfound, by simpa using List.find?_some hfound⟩

theorem Sound.mutated (h : Sound s) {id : Uuid} {transition : AccountData → AccountData}
    (hkeeps : ∀ a ∈ s.accounts, Keeps a (transition a)) : Sound (s.mutate id transition) := by
  have hrow : ∀ a ∈ s.accounts, Keeps a (if a.id = id then transition a else a) := by
    intro a ha
    split
    · exact hkeeps a ha
    · exact Keeps.refl a
  refine { h with ids := ?_, inForce := ?_, task := ?_ }
  · intro a ha b hb hab
    obtain ⟨x, hx, rfl⟩ := mem_map.mp ha
    obtain ⟨y, hy, rfl⟩ := mem_map.mp hb
    rw [(hrow x hx).id, (hrow y hy).id] at hab
    rw [h.ids x hx y hy hab]
  · intro b hb
    obtain ⟨a, ha, rfl⟩ := mem_map.mp hb
    intro hlive
    have hsame := (hrow a ha).assignment_eq hlive s.configuration
    exact hsame ▸ h.inForce a ha ((hrow a ha).live hlive).1
  · intro n task htask
    exact (h.task n task htask).mono (fun _ hx => hx) (fun _ hx => hx)

theorem unique_append {old new : List Assignment}
    (hold : ∀ x ∈ old, ∀ y ∈ old, x.account = y.account →
      x.effectiveConfigId = y.effectiveConfigId → x = y)
    (hnew : ∀ x ∈ new, ∀ y ∈ new, x.account = y.account → x = y)
    (hfresh : ∀ x ∈ old, ∀ y ∈ new, x.account = y.account →
      x.effectiveConfigId ≠ y.effectiveConfigId) :
    ∀ x ∈ old ++ new, ∀ y ∈ old ++ new, x.account = y.account →
      x.effectiveConfigId = y.effectiveConfigId → x = y := by
  intro x hx y hy haccount hconfig
  rcases mem_append.mp hx with hx | hx
  · rcases mem_append.mp hy with hy | hy
    · exact hold x hx y hy haccount hconfig
    · exact absurd hconfig (hfresh x hx y hy haccount)
  · rcases mem_append.mp hy with hy | hy
    · exact absurd hconfig.symm (hfresh y hy x hx haccount.symm)
    · exact hnew x hx y hy haccount

theorem fresh_iff {id effectiveConfigId : Uuid} : s.fresh id effectiveConfigId ↔
    ∀ x ∈ s.assigned, x.account = id → x.effectiveConfigId ≠ effectiveConfigId := by
  simp only [State.fresh, all_eq_true, Bool.or_eq_true, decide_eq_true_eq, ne_eq]
  constructor
  · intro h x hx haccount
    exact (h x hx).resolve_left (not_not.mpr haccount)
  · intro h x hx
    by_cases haccount : x.account = id
    · exact Or.inr (h x hx haccount)
    · exact Or.inl haccount

section Assign

variable {settings : Instance} {concerned : AccountData → Bool} {eci operation : Uuid → Uuid}

@[simp] theorem id_revised (a : AccountData) : (revised concerned eci operation a).id = a.id := by
  unfold revised
  split <;> rfl

@[simp] theorem lifecycle_revised (a : AccountData) :
    (revised concerned eci operation a).lifecycle = a.lifecycle := by
  unfold revised
  split <;> rfl

@[simp] theorem proxyId_revised (a : AccountData) :
    (revised concerned eci operation a).proxyId = a.proxyId := by
  unfold revised
  split <;> rfl

theorem effectiveConfigId_revised {a : AccountData} (ha : concerned a) :
    (revised concerned eci operation a).effectiveConfigId = eci a.id := by
  rw [revised, if_pos ha]

theorem mem_revised (hconcerned : ∀ a b, a.proxyId = b.proxyId → a.lifecycle = b.lifecycle →
      concerned a = concerned b) {accounts : List AccountData} {config : Configuration}
    {x : Assignment} (hx : x ∈ ((accounts.map (revised concerned eci operation)).filter
      concerned).map (assignment · config)) :
    ∃ a ∈ accounts, x = assignment (revised concerned eci operation a) config ∧
      x.effectiveConfigId = eci a.id := by
  obtain ⟨b, hb, rfl⟩ := mem_map.mp hx
  obtain ⟨hmem, hbconcerned⟩ := mem_filter.mp hb
  obtain ⟨a, ha, rfl⟩ := mem_map.mp hmem
  rw [hconcerned _ a (proxyId_revised a) (lifecycle_revised a)] at hbconcerned
  exact ⟨a, ha, rfl, effectiveConfigId_revised hbconcerned⟩

theorem Sound.reassigned (h : Sound s)
    (hactive : ∀ id, settings.activeProxyProfileId = some id → (s.profiles id).isSome)
    (hconcerned : ∀ a b, a.proxyId = b.proxyId → a.lifecycle = b.lifecycle →
      concerned a = concerned b)
    (hother : ∀ a, concerned a = false → a.lifecycle ≠ .removed →
      effective a { s with settings }.configuration = effective a s.configuration) :
    Sound (s.assign settings concerned eci operation) := by
  unfold State.assign
  split
  · rename_i hfresh
    refine { h with
      ids := ?_
      active := hactive
      inForce := ?_
      unique := ?_
      task := ?_
      command := fun sent hsent => mem_append_left _ (h.command sent hsent) }
    · intro a ha b hb hab
      obtain ⟨x, hx, rfl⟩ := mem_map.mp ha
      obtain ⟨y, hy, rfl⟩ := mem_map.mp hb
      rw [id_revised, id_revised] at hab
      rw [h.ids x hx y hy hab]
    · intro b hb hlive
      obtain ⟨a, ha, rfl⟩ := mem_map.mp hb
      by_cases hac : concerned a
      · refine mem_append_right _ (mem_map_of_mem (mem_filter.mpr ⟨hb, ?_⟩))
        rw [hconcerned _ a (proxyId_revised a) (lifecycle_revised a)]
        exact hac
      -- the change gives an account that it does not concern what it had
      · have hnot : concerned a = false := by simpa using hac
        have hsame : revised concerned eci operation a = a := by rw [revised, if_neg hac]
        rw [hsame] at hlive ⊢
        refine mem_append_left _ ?_
        have hassigned := h.inForce a ha hlive
        rw [assignment, ← hother a hnot hlive] at hassigned
        exact hassigned
    · refine unique_append h.unique ?_ ?_
      · intro x hx y hy haccount
        obtain ⟨a, ha, rfl, -⟩ := mem_revised hconcerned hx
        obtain ⟨b, hb, rfl, -⟩ := mem_revised hconcerned hy
        have hab : a.id = b.id := by simpa [assignment] using haccount
        rw [h.ids a ha b hb hab]
      · intro x hx y hy haccount
        obtain ⟨a, ha, rfl, hconfigId⟩ := mem_revised hconcerned hy
        rw [hconfigId]
        refine fresh_iff.mp (all_eq_true.mp hfresh a ha) x hx ?_
        simpa [assignment] using haccount
    · intro n task htask
      exact (h.task n task htask).mono (fun _ hx => mem_append_left _ hx) (fun _ hx => hx)
  · exact h

theorem Sound.updated (h : Sound s) {revision : ℕ} {apiId : Option (Option ℕ)}
    {apiHash : Option (Option String)} :
    Sound (s.update revision apiId apiHash eci operation) := by
  unfold State.update
  split
  · exact h
  · refine h.reassigned h.active ?_ ?_
    · intro a b _ hlifecycle
      rw [hlifecycle]
    · intro a hremoved hlive
      simp [hlive] at hremoved

theorem Sound.activated (h : Sound s) {profile : Option Uuid} :
    Sound (s.activate profile eci operation) := by
  unfold State.activate
  split
  · rename_i hprofile
    refine h.reassigned ?_ ?_ ?_
    · rintro id rfl
      exact hprofile
    · intro a b hproxyId hlifecycle
      rw [hproxyId, hlifecycle]
    · intro a hown hlive
      have hproxyId : a.proxyId ≠ none := by
        intro hnone
        simp [hnone, hlive] at hown
      obtain ⟨id, hid⟩ := Option.ne_none_iff_exists'.mp hproxyId
      simp only [effective, hid, State.configuration, configuration]
  · exact h

end Assign

theorem Sound.assignedRow (h : Sound s) {accounts : List AccountData} {a : AccountData}
    (hids : ∀ x ∈ accounts, ∀ y ∈ accounts, x.id = y.id → x = y)
    (haccounts : ∀ x ∈ accounts, x ∈ s.accounts ∨ x = a) (hfresh : s.fresh a.id a.effectiveConfigId) :
    Sound { s with accounts, assigned := s.assigned ++ [assignment a s.configuration] } := by
  refine { h with
    ids := hids
    inForce := ?_
    unique := ?_
    task := ?_
    command := fun sent hsent => mem_append_left _ (h.command sent hsent) }
  · intro x hx hlive
    rcases haccounts x hx with hold | rfl
    · exact mem_append_left _ (h.inForce x hold hlive)
    · exact mem_append_right _ (mem_singleton_self _)
  · refine unique_append h.unique ?_ ?_
    · intro x hx y hy _
      rw [mem_singleton.mp hx, mem_singleton.mp hy]
    · intro x hx y hy haccount
      obtain rfl := mem_singleton.mp hy
      exact fresh_iff.mp hfresh x hx haccount
  · intro n task htask
    exact (h.task n task htask).mono (fun _ hx => mem_append_left _ hx) (fun _ hx => hx)

theorem Sound.created (h : Sound s) {id generation eci : Uuid} {proxy : Proxy} :
    Sound (s.create id generation eci proxy) := by
  unfold State.create
  split
  · exact h
  · rename_i proxy _
    split
    · exact h
    · rename_i hnew
      obtain ⟨hunused, hfresh⟩ := not_or.mp hnew
      have hid : ∀ x ∈ s.accounts, x.id ≠ id := by
        intro x hx hxid
        refine hunused (List.find?_isSome.mpr ⟨x, hx, ?_⟩)
        simpa using hxid
      refine h.assignedRow (a := provisioned id generation eci proxy) ?_ ?_ (not_not.mp hfresh)
      · intro x hx y hy hxy
        rcases mem_append.mp hx with hx | hx
        · rcases mem_append.mp hy with hy | hy
          · exact h.ids x hx y hy hxy
          · rw [mem_singleton.mp hy] at hxy
            exact absurd hxy (hid x hx)
        · rcases mem_append.mp hy with hy | hy
          · rw [mem_singleton.mp hx] at hxy
            exact absurd hxy.symm (hid y hy)
          · rw [mem_singleton.mp hx, mem_singleton.mp hy]
      · intro x hx
        exact (mem_append.mp hx).imp_right mem_singleton.mp

theorem updateProxy_identity {a b : AccountData} {revision : ℕ} {proxy : Proxy}
    {eci operation : Uuid} (h : a.updateProxy revision proxy eci operation = .ok b) :
    b.id = a.id ∧ b.effectiveConfigId = eci := by
  simp only [AccountData.updateProxy, bind, Except.bind, pure, Except.pure, throw, throwThe,
    MonadExceptOf.throw] at h
  repeat' split at h
  all_goals first | contradiction | (cases h; exact ⟨rfl, rfl⟩)

theorem Sound.proxyUpdated (h : Sound s) {id eci operation : Uuid} {revision : ℕ} {proxy : Proxy} :
    Sound (s.updateProxy id revision proxy eci operation) := by
  unfold State.updateProxy
  split
  · rename_i account hfound
    obtain ⟨-, hid⟩ := mem_of_find? hfound
    split
    · exact h
    · rename_i updated hupdated
      obtain ⟨hsame, rfl⟩ := updateProxy_identity hupdated
      have hupdatedId : updated.id = id := hsame.trans hid
      split
      · rename_i hfresh
        subst hupdatedId
        refine h.assignedRow ?_ ?_ hfresh
        · have hid : ∀ a, (if a.id = updated.id then updated else a).id = a.id := by
            intro a
            split
            · rename_i heq
              exact heq.symm
            · rfl
          intro x hx y hy hxy
          obtain ⟨a, ha, rfl⟩ := mem_map.mp hx
          obtain ⟨b, hb, rfl⟩ := mem_map.mp hy
          rw [hid, hid] at hxy
          rw [h.ids a ha b hb hxy]
        · intro x hx
          obtain ⟨a, ha, rfl⟩ := mem_map.mp hx
          split
          · exact Or.inr rfl
          · exact Or.inl ha
      · exact h
  · exact h

theorem Sound.sameConfiguration (h : Sound s) {settings : Instance}
    {profiles : Uuid → Option ProxyProfile}
    (hactive : ∀ id, settings.activeProxyProfileId = some id → (profiles id).isSome)
    (hsame : { s with settings, profiles }.configuration = s.configuration) :
    Sound { s with settings, profiles } := by
  refine { h with active := hactive, inForce := ?_, task := ?_ }
  · intro a ha hlive
    rw [hsame]
    exact h.inForce a ha hlive
  · intro n task htask
    exact (h.task n task htask).mono (fun _ hx => hx) (fun _ hx => hx)

theorem Sound.profileChanged (h : Sound s) {id : Uuid} {profile : Option ProxyProfile}
    (hother : ∀ active, s.settings.activeProxyProfileId = some active → active ≠ id) :
    Sound { s with profiles := Function.update s.profiles id profile } := by
  refine h.sameConfiguration ?_ ?_
  · intro active hactive
    rw [Function.update_of_ne (hother active hactive)]
    exact h.active active hactive
  · unfold State.configuration
    cases hactive : s.settings.activeProxyProfileId with
    | none => rfl
    | some active =>
      simp only [Option.bind_some]
      rw [Function.update_of_ne (hother active hactive)]

end Tables

section Processes

variable {process : ℕ} {job : Job}

theorem Sound.held (h : Sound s) {a : AccountData} (ha : a ∈ s.accounts) : (s.hold a).Sound s :=
  h.inForce a ha

variable {purpose : Purpose}

theorem Sound.searched (h : Sound s) {id : Uuid} (hpurpose : purpose.Sound s) :
    Sound (s.find process id purpose) := by
  unfold State.find
  split
  · rename_i account hfound
    split
    · split
      · exact h.resumed hpurpose
      · exact h.drop
    · rename_i hlive
      exact h.goOn ⟨h.held (mem_of_find? hfound).1, hlive, hpurpose⟩
  · exact h.resumed hpurpose
  · exact h.drop

variable {account : AccountData}

theorem Sound.persisted (h : Sound s) :
    Sound (s.persistSnapshotState account) := by
  refine h.mutated ?_
  intro a _
  split
  · exact ⟨rfl, fun hlive => ⟨hlive, rfl, rfl, rfl, rfl⟩⟩
  · exact Keeps.refl a

theorem Held.Sound.applySnapshot {held : Held} (h : held.Sound s) (snapshot : Snapshot) :
    ({ held with account := held.account.applySnapshot snapshot } : Held).Sound s := by
  obtain ⟨hkeeps, hlifecycle⟩ := keeps_applySnapshot held.account snapshot
  intro hlive
  obtain ⟨halive, hconfig, -⟩ := hkeeps.live hlive
  rw [hkeeps.id, hconfig]
  exact h halive

theorem Sound.found (h : Sound s) {held : Held} (hheld : held.Sound s)
    (hpurpose : purpose.Sound s) : Sound (s.found process held purpose) := by
  cases purpose with
  | retry job =>
    rw [State.found]
    split
    · exact h.resumed hpurpose
    · exact h.intended ⟨hheld, hpurpose.2⟩
  | apply =>
    refine h.goOn ?_
    rintro x ⟨⟩
    exact hheld

theorem Sound.refreshed (h : Sound s) {held : Held} (hheld : held.Sound s)
    (hpurpose : purpose.Sound s) {snapshot : Option Snapshot} :
    Sound (s.snapshot process held purpose snapshot) := by
  cases snapshot with
  | none => exact h.found hheld hpurpose
  | some snapshot =>
    refine h.persisted.found ?_ ?_
    · exact hheld.applySnapshot snapshot
    · exact Purpose.Sound.mono (fun _ hx => hx) hpurpose

theorem Sound.configured (h : Sound s) {held : Option Held}
    (hheld : ∀ x, held = some x → x.Sound s) {config : Configuration} :
    Sound (s.configured process held config) := by
  unfold State.configured
  split
  · exact h.goOn (fun _ hx => absurd hx not_mem_nil)
  · rename_i held
    have hjob : Job.Sound s { later := none, held, config } :=
      ⟨hheld held rfl, fun _ _ hlater => absurd hlater.symm (Option.some_ne_none _)⟩
    split
    · exact h.intended hjob
    · rename_i hactive
      refine h.goOn ⟨hjob, ?_⟩
      rw [not_not.mp hactive]
      decide

theorem command_eq_some {config : Configuration} {kind : Kind}
    {sent : Command} (h : command account config kind = some sent) :
    sent.uuid = account.id ∧ sent.revision = account.desiredRevision ∧
      sent.effectiveConfigId = account.effectiveConfigId ∧
      sent.given = effective account config := by
  obtain ⟨proxy, hproxy, rfl⟩ := Option.map_eq_some_iff.mp h
  refine ⟨rfl, rfl, rfl, ?_⟩
  rw [Command.given, ← hproxy]

section

variable (h : Sound s) (hjob : job.Sound s)
include h hjob

theorem Sound.sent (hlive : job.held.account.lifecycle ≠ .removed)
    (hcurrent : effective job.held.account job.config = job.held.inForce) {kind : Kind} :
    Sound (s.send process job kind) := by
  unfold State.send
  split
  · rename_i sent hsent
    obtain ⟨huuid, hrevision, hconfig, hgiven⟩ := command_eq_some hsent
    have hassigned : (⟨sent.uuid, sent.effectiveConfigId, sent.given⟩ : Assignment) ∈ s.assigned := by
      rw [huuid, hconfig, hgiven, hcurrent]
      exact hjob.1 hlive
    have hgrown : Sound { s with commands := s.commands ++ [sent] } := by
      refine { h with task := ?_, command := ?_, confirmed := ?_ }
      · intro n task htask
        exact Task.Sound.mono (s := s) (fun _ hx => hx) (fun _ hx => mem_append_left _ hx)
          (h.task n task htask)
      · intro x hx
        rcases mem_append.mp hx with hold | hlast
        · exact h.command x hold
        · rw [mem_singleton.mp hlast]
          exact hassigned
      · intro row x hx
        obtain ⟨⟨hmem, hfor⟩, happlied⟩ := h.confirmed row x hx
        exact ⟨⟨mem_append_left _ hmem, hfor⟩, happlied⟩
    refine hgrown.goOn ⟨Job.Sound.mono (fun _ hx => hx) hjob, ?_⟩
    exact ⟨mem_append_right _ (mem_singleton_self _), huuid, hrevision, hconfig⟩
  · exact h.thrown hjob

theorem Sound.answered {sent : Command}
    (hsent : SentFor s job.held.account sent) {answer : Except String Snapshot} :
    Sound (s.answer process job sent answer) := by
  unfold State.answer
  split
  · exact h.goOn ⟨hjob, hsent⟩
  · split
    · split
      · exact h.goOn ⟨hjob, hsent⟩
      · exact h.thrown hjob
    · split
      · exact h.goOn hjob
      · exact h.thrown hjob
    · exact h.thrown hjob
    · exact h.drop

theorem Sound.abandoned {operation : Uuid} :
    Sound (s.abandon process job operation) := by
  have hmutated : Sound (s.mutate job.held.account.id fun current =>
      current.abandonLogout job.held.account operation) :=
    h.mutated fun a _ => keeps_abandonLogout a _ _
  have hjob' : job.Sound (s.mutate job.held.account.id fun current =>
      current.abandonLogout job.held.account operation) := Job.Sound.mono (fun _ hx => hx) hjob
  unfold State.abandon
  dsimp only
  split
  · exact hmutated.resumed hjob'
  · rename_i account hfound
    split
    · rename_i hprovisioning
      refine hmutated.goOn ⟨⟨hmutated.held (mem_of_find? hfound).1, hjob'.2⟩, ?_⟩
      show account.lifecycle ≠ .removed
      rw [hprovisioning]
      decide
    · exact hmutated.resumed hjob'

theorem Sound.confirmedAnswer {sent : Command}
    (hsent : SentFor s job.held.account sent) {data : Snapshot} :
    Sound (s.confirm process job sent data) := by
  have hmutated : Sound (s.mutate job.held.account.id fun current =>
      current.confirm job.held.account data) :=
    h.mutated fun a _ => keeps_confirm a _ _
  have hconfirmed : ∀ confirmed : List (AccountData × Command),
      (∀ row sent, (row, sent) ∈ confirmed →
        SentFor s row sent ∧ row.appliedRevision = some sent.revision) →
      Sound { s.mutate job.held.account.id fun current =>
        current.confirm job.held.account data with confirmed } := by
    intro confirmed hsub
    refine { hmutated with task := ?_, confirmed := hsub }
    intro n task htask
    exact (hmutated.task n task htask).mono (fun _ hx => hx) (fun _ hx => hx)
  refine Sound.resumed (hconfirmed _ ?_) (Job.Sound.mono (fun _ hx => hx) hjob)
  intro row x hx
  split at hx
  · rename_i current hfound
    split at hx
    · rename_i hmarks
      rcases mem_append.mp hx with hold | hlast
      · exact h.confirmed row x hold
      · obtain ⟨rfl, rfl⟩ := by simpa using hlast
        obtain ⟨hid, hrevision, hconfig, happlied⟩ := confirm_applied hmarks.1 hmarks.2
        obtain ⟨hmem, huuid, hsentRevision, hsentConfig⟩ := hsent
        refine ⟨⟨hmem, ?_, hsentRevision.trans hrevision.symm, hsentConfig.trans hconfig.symm⟩, ?_⟩
        · rw [hid, (mem_of_find? hfound).2, huuid]
        · rw [happlied, hsentRevision]
    · exact h.confirmed row x hx
  · exact h.confirmed row x hx

end

end Processes

/-- The configuration of a command gives the account what was in force when its row was read. Every
other event is free. -/
def Current (s : State) : Event → Prop
  | .command process => ∀ job kind, s.tasks process = some (.commanding job kind) →
      effective job.held.account job.config = job.held.inForce
  | _ => True

/-- **The invariant.** Every step within the condition keeps what holds of the tables, the
processes and their commands. -/
theorem sound_step (event : Event) (hcurrent : Current s event) (h : Sound s) :
    Sound (step s event) := by
  cases event with
  | create id generation eci proxy => exact h.created
  | updateProxy id revision proxy eci operation => exact h.proxyUpdated
  | logout id operation => exact h.mutated fun a _ => keeps_logout a operation
  | remove id operation => exact h.mutated fun a _ => keeps_remove a operation
  | settings revision apiId apiHash eci operation => exact h.updated
  | activate profile eci operation => exact h.activated
  | configure => exact h.sameConfiguration h.active rfl
  | createProfile id profile =>
    rw [step]
    split
    · exact h
    · rename_i hunused
      have hother : ∀ active, s.settings.activeProxyProfileId = some active → active ≠ id := by
        rintro active hactive rfl
        exact hunused (h.active active hactive)
      exact h.profileChanged hother
  | deleteProfile id =>
    rw [step]
    split
    · exact h
    · rename_i hinactive
      have hother : ∀ active, s.settings.activeProxyProfileId = some active → active ≠ id := by
        rintro active hactive rfl
        exact hinactive hactive
      exact h.profileChanged hother
  | run => exact h.begin fun _ hx => absurd hx.symm (Option.some_ne_none _)
  | applyEffectiveProxy id => exact h.begin trivial
  | readSettings process =>
    rw [step]
    split
    · rename_i htask
      have hheld := h.task _ _ htask
      exact h.goOn hheld
    · exact h
  | readProfile process =>
    rw [step]
    split
    · rename_i htask
      exact h.configured (h.task _ _ htask)
    · exact h
  | batch process ids =>
    rw [step]
    split
    · refine h.goOn ?_
      intro held hheld
      obtain ⟨a, ha, rfl⟩ := mem_map.mp hheld
      obtain ⟨id, -, hfound⟩ := mem_filterMap.mp (mem_filter.mp ha).1
      exact h.held (mem_of_find? hfound).1
    · exact h
  | next process =>
    rw [step]
    split
    · rename_i config held batch htask
      have hbatch := h.task _ _ htask
      refine h.intended ⟨hbatch held mem_cons_self, ?_⟩
      rintro _ _ ⟨⟩ other hother
      exact hbatch other (mem_cons_of_mem _ hother)
    · exact h
  | skip process =>
    rw [step]
    split
    · rename_i htask
      exact h.goOn fun other hother => h.task _ _ htask other (mem_cons_of_mem _ hother)
    · exact h.drop
    · exact h
  | find process =>
    rw [step]
    split
    · rename_i htask
      exact h.searched (h.task _ _ htask)
    · exact h
  | snapshot process snapshot =>
    rw [step]
    split
    · rename_i htask
      obtain ⟨hheld, -, hpurpose⟩ := h.task _ _ htask
      exact h.refreshed hheld hpurpose
    · exact h
  | command process =>
    rw [step]
    split
    · rename_i job kind htask
      obtain ⟨hjob, hlive⟩ := h.task _ _ htask
      exact h.sent hjob hlive (hcurrent job kind htask)
    · exact h
  | answer process answer =>
    rw [step]
    split
    · rename_i htask
      obtain ⟨hjob, hsent⟩ := h.task _ _ htask
      exact h.answered hjob hsent
    · exact h
  | abandon process operation =>
    rw [step]
    split
    · rename_i htask
      exact h.abandoned (h.task _ _ htask)
    · exact h
  | confirm process =>
    rw [step]
    split
    · rename_i htask
      obtain ⟨hjob, hsent⟩ := h.task _ _ htask
      exact h.confirmedAnswer hjob hsent
    · exact h
  | crash process => exact h.drop

theorem sound_start : Sound {} := by
  constructor
  case active =>
    intro id hid
    exact absurd hid.symm (Option.some_ne_none id)
  case task =>
    intro n task htask
    exact absurd htask.symm (Option.some_ne_none task)
  case confirmed =>
    intro row sent hmem
    exact absurd hmem not_mem_nil
  all_goals
    intro x hx
    exact absurd hx not_mem_nil

/-- **One configuration for a revision.** In a run whose commands are all made of a configuration
and a row that belong together, every command carries what was in force when its
`effective_config_id` was assigned; two commands of one revision carry the same; and a row whose
revision was confirmed is one that the runtime was given what was assigned for. -/
theorem given_of_run {events : List Event} {s : State}
    (hrun : Run (Within Current fun s e s' => step s e = s') {} events s) :
    (∀ sent ∈ s.commands, ∃ x ∈ s.assigned, x.account = sent.uuid ∧
      x.effectiveConfigId = sent.effectiveConfigId ∧ x.given = sent.given ∧
      ∀ y ∈ s.assigned, y.account = sent.uuid →
        y.effectiveConfigId = sent.effectiveConfigId → y = x) ∧
    (∀ a ∈ s.commands, ∀ b ∈ s.commands, a.uuid = b.uuid → a.revision = b.revision →
      a.effectiveConfigId = b.effectiveConfigId →
        a.proxy = b.proxy ∧ a.credentials = b.credentials) ∧
    ∀ row sent, (row, sent) ∈ s.confirmed → row.appliedRevision = some row.desiredRevision ∧
      sent.uuid = row.id ∧ sent.revision = row.desiredRevision ∧
      (⟨row.id, row.effectiveConfigId, sent.given⟩ : Assignment) ∈ s.assigned := by
  have h : Sound s := by
    refine hrun.invariant Sound ?_ sound_start
    rintro t event t' ht ⟨hcurrent, rfl⟩
    exact sound_step event hcurrent ht
  refine ⟨?_, ?_, ?_⟩
  · intro sent hsent
    refine ⟨_, h.command sent hsent, rfl, rfl, rfl, ?_⟩
    intro y hy haccount hconfig
    exact h.unique y hy _ (h.command sent hsent) haccount hconfig
  · intro a ha b hb huuid _ hconfig
    have hsame := h.unique _ (h.command a ha) _ (h.command b hb) huuid hconfig
    have hgiven : a.given = b.given := congrArg Assignment.given hsame
    obtain ⟨hproxy, hcredentials⟩ := by simpa [Command.given] using hgiven
    exact ⟨hproxy, hcredentials⟩
  · intro row sent hconfirmed
    obtain ⟨⟨hsent, huuid, hrevision, hconfig⟩, happlied⟩ := h.confirmed row sent hconfirmed
    refine ⟨by rw [happlied, hrevision], huuid, hrevision, ?_⟩
    rw [← huuid, ← hconfig]
    exact h.command sent hsent

namespace Sample

def started : List Event :=
  [.create 1 10 20 { mode := .inherit }, .run, .readSettings 0, .readProfile 0]

def credentials : Event :=
  .settings 1 (some (some 4242)) (some (some "0123456789abcdef")) (fun _ => 21) (fun _ => 31)

def commanded (process : ℕ) : List Event := [.batch process [1], .next process, .command process]

def applied : List Event :=
  [.answer 0 (.ok { generation := some 10, appliedRevision := some 1, effectiveConfigId := some 20 }),
    .confirm 0]

def again : List Event :=
  [.answer 0 (.error "service.tdlib_unavailable"), .skip 0, .run, .readSettings 1, .readProfile 1]

def after (events : List Event) : State := events.foldl step {}

end Sample

/-- A pass that nothing disturbs: the revision is confirmed, with what was assigned. -/
theorem given_of_run_applied :
    let s := Sample.after (Sample.started ++ Sample.commanded 0 ++ Sample.applied)
    s.confirmed.length = 1 ∧ ∀ row sent, (row, sent) ∈ s.confirmed →
      row.appliedRevision = some row.desiredRevision ∧ sent.uuid = row.id ∧
      sent.revision = row.desiredRevision ∧
      (⟨row.id, row.effectiveConfigId, sent.given⟩ : Assignment) ∈ s.assigned := by
  intro s
  have hstarted : Run (Within Current fun s e s' => step s e = s') {} Sample.started
      (Sample.after Sample.started) :=
    ((((Run.nil _).snoc ⟨trivial, rfl⟩).snoc ⟨trivial, rfl⟩).snoc ⟨trivial, rfl⟩).snoc
      ⟨trivial, rfl⟩
  have hcurrent : Current (Sample.after (Sample.started ++ [.batch 0 [1], .next 0])) (.command 0) := by
    intro job kind htask
    have hjob : (Sample.after (Sample.started ++ [.batch 0 [1], .next 0])).tasks 0 =
        some (.commanding
          { later := some (configuration {} none, [])
            held := ⟨provisioned 1 10 20 { mode := .inherit }, ⟨some { mode := .direct }, none⟩⟩
            config := configuration {} none }
          (.provision false)) := by decide
    rw [hjob] at htask
    cases htask
    decide
  have hcommanded : Run (Within Current fun s e s' => step s e = s') (Sample.after Sample.started)
      (Sample.commanded 0) (Sample.after (Sample.started ++ Sample.commanded 0)) :=
    (((Run.nil _).snoc ⟨trivial, rfl⟩).snoc ⟨trivial, rfl⟩).snoc ⟨hcurrent, rfl⟩
  have happlied : Run (Within Current fun s e s' => step s e = s')
      (Sample.after (Sample.started ++ Sample.commanded 0)) Sample.applied s :=
    ((Run.nil _).snoc ⟨trivial, rfl⟩).snoc ⟨trivial, rfl⟩
  exact ⟨by decide, (given_of_run ((hstarted.append hcommanded).append happlied)).2.2⟩

/-- **A settings update between the two reads.** The pass has read a configuration without
credentials; the owner enters them; the pass reads the row and sends the new revision without
them, and the next pass sends the same revision with them. -/
theorem two_configurations :
    ¬ ∀ (events : List Event) (s : State),
      Run (fun s e s' => step s e = s') {} events s →
        ∀ a ∈ s.commands, ∀ b ∈ s.commands, a.uuid = b.uuid → a.revision = b.revision →
          a.effectiveConfigId = b.effectiveConfigId →
            a.proxy = b.proxy ∧ a.credentials = b.credentials := by
  intro hclaim
  have hrun : Run (fun s e s' => step s e = s') {}
      (Sample.started ++ Sample.credentials :: Sample.commanded 0 ++ Sample.again ++
        Sample.commanded 1)
      (Sample.after (Sample.started ++ Sample.credentials :: Sample.commanded 0 ++ Sample.again ++
        Sample.commanded 1)) :=
    (run_function_iff _ _ _ _).mpr rfl
  have hsame := hclaim _ _ hrun
  revert hsame
  decide

end Api.Reconcile
