import TeleBezel.Phone.SendOutcome
import TeleBezel.Phone.SendTasks

/-!
# The entries and their attempts

An entry is found by its draft and the number of its attempt. As long as drafts are not discarded
and the settings are not changed, the entries in the list are exactly those that are found so, and
every callback that is still to come holds one of them: a POST for an attempt is one of the entry
of that attempt.
-/

open List

namespace Phone

open Transition Compose Function

/-- The entries in the list are those found by draft and attempt, the tasks hold only such
entries, and no two stored entries are of one attempt. -/
structure Indexed (x : Option ℕ) (c : Compose) : Prop where
  nodup : c.entries.Nodup
  filed : ∀ ref ∈ c.entries, c.slot (c.heap ref).draftId (c.heap ref).attempt = some ref
  found : ∀ draftId attempt ref, c.slot draftId attempt = some ref →
    ref ∈ c.entries ∧ (c.heap ref).draftId = draftId ∧ (c.heap ref).attempt = attempt
  ids : ∀ draftId draft, c.drafts draftId = some draft → draft.id = draftId
  tasks : ∀ task ∈ c.tasks, task.ref ∈ c.entries
  running : ∀ ref ∈ x, ref ∈ c.entries
  sends : c.sends.Pairwise fun s t => ¬ (s.draftId = t.draftId ∧ s.attempt = t.attempt)
  unloaded : c.loaded = false → c.entries = [] ∧ ∀ draftId, c.drafts draftId = none

theorem slot_of_drafts {c c' : Compose} {draftId attempt : ℕ} {draft : Draft} {new : Option ℕ}
    (hdrafts : c'.drafts = update c.drafts draftId
      (some (setAttempt draft attempt new)))
    (hdraft : ∀ a, draft.attempts a = c.slot draftId a) (d a : ℕ) :
    c'.slot d a = if d = draftId ∧ a = attempt then new else c.slot d a := by
  rw [slot, hdrafts, update_apply]
  by_cases hd : d = draftId
  · subst hd
    by_cases ha : a = attempt <;> simp [setAttempt, ha, hdraft]
  · simp [hd, slot]

theorem slot_restore (c : Compose) (stored : Stored) (d a : ℕ) :
    (c.restore stored).slot d a =
      if d = stored.draftId ∧ a = stored.attempt then some c.next else c.slot d a := by
  refine slot_of_drafts rfl (fun a => ?_) d a
  cases hdraft : c.drafts stored.draftId <;> simp [slot, hdraft, draftFor]

theorem slot_add {c : Compose} {env : Env} {found : Draft} {attempt sequence : ℕ}
    {value : Settings} (hfound : c.drafts found.id = some found) (d a : ℕ) :
    (c.add env found attempt sequence value).slot d a =
      if d = found.id ∧ a = attempt then some c.next else c.slot d a :=
  slot_of_drafts rfl (fun a => by simp [slot, hfound]) d a

namespace Indexed

variable {x : Option ℕ} {c c' : Compose} {env : Env} {ref : ℕ}

theorem congr (h : Indexed x c)
    (hview : (fun ref => (c'.heap ref).toIdentity, c'.entries, c'.drafts, c'.tasks, c'.sends,
      c'.loaded) = (fun ref => (c.heap ref).toIdentity, c.entries, c.drafts, c.tasks, c.sends,
      c.loaded)) : Indexed x c' := by
  simp only [Prod.mk.injEq] at hview
  obtain ⟨hheap, hentries, hdrafts, htasks, hsends, hloaded⟩ := hview
  simp only [funext_iff] at hheap
  have hslot : c'.slot = c.slot := by
    funext d a
    rw [slot, slot, hdrafts]
  have hdraft : ∀ ref, (c'.heap ref).draftId = (c.heap ref).draftId := fun ref =>
    congrArg Identity.draftId (hheap ref)
  have hattempt : ∀ ref, (c'.heap ref).attempt = (c.heap ref).attempt := fun ref =>
    congrArg Identity.attempt (hheap ref)
  exact
    { nodup := by rw [hentries]; exact h.nodup
      filed := fun ref hmem => by
        rw [hslot, hdraft, hattempt]
        exact h.filed ref (by rwa [← hentries])
      found := fun d a ref hfound => by
        rw [hslot] at hfound
        rw [hentries, hdraft, hattempt]
        exact h.found d a ref hfound
      ids := by rw [hdrafts]; exact h.ids
      tasks := by rw [htasks, hentries]; exact h.tasks
      running := by rw [hentries]; exact h.running
      sends := by rw [hsends]; exact h.sends
      unloaded := by rw [hloaded, hentries, hdrafts]; exact h.unloaded }

theorem modify (h : Indexed x c) (f : Entry → Entry)
    (hf : (f (c.heap ref)).toIdentity = (c.heap ref).toIdentity) : Indexed x (c.modify ref f) := by
  refine h.congr (Prod.ext (funext fun other => ?_) rfl)
  dsimp only
  rw [modify_heap, update_apply]
  split_ifs with heq
  · rw [hf, heq]
  · rfl

theorem ref_unique (h : Indexed x c) {other : ℕ} (href : ref ∈ c.entries)
    (hother : other ∈ c.entries) (hdraft : (c.heap ref).draftId = (c.heap other).draftId)
    (hattempt : (c.heap ref).attempt = (c.heap other).attempt) : ref = other := by
  have hslot := h.filed ref href
  rw [hdraft, hattempt, h.filed other hother] at hslot
  exact (Option.some.inj hslot).symm

theorem persist (h : Indexed x c) : Indexed x (c.persist env) := by
  refine { h with sends := ?_ }
  rw [persist_sends]
  split_ifs
  · have hentries : (c.entries.map c.heap).Pairwise fun s t =>
        ¬ (s.draftId = t.draftId ∧ s.attempt = t.attempt) := by
      refine pairwise_map.2 (List.Pairwise.imp_of_mem ?_ h.nodup)
      exact fun href hother hne hsame => hne (h.ref_unique href hother hsame.1 hsame.2)
    exact (hentries.filter _).map _ fun s t hst => hst
  · exact h.sends

theorem await (h : Indexed x c) (task : Task) (hmem : task.ref ∈ c.entries) :
    Indexed x (c.await task) := by
  refine { h with tasks := fun other hother => ?_ }
  rw [await_tasks, mem_append, mem_singleton] at hother
  rcases hother with hin | rfl
  · exact h.tasks other hin
  · exact hmem

theorem take (h : Indexed none c) {i : ℕ} {task : Task} (htask : c.tasks[i]? = some task) :
    Indexed (some task.ref) (c.take i) := by
  refine { h with
    tasks := fun other hother => h.tasks other (mem_of_mem_eraseIdx hother)
    running := ?_ }
  rintro _ ⟨⟩
  exact h.tasks task (mem_of_getElem? htask)

theorem drop (h : Indexed x c) : Indexed none c := { h with running := nofun }

theorem alloc (h : Indexed x c) (hs : Sound x c) (entry : Entry)
    (hheap : c'.heap = update c.heap c.next entry)
    (hentries : c'.entries = c.entries ++ [c.next])
    (hslot : ∀ d a, c'.slot d a =
      if d = entry.draftId ∧ a = entry.attempt then some c.next else c.slot d a)
    (hnone : c.slot entry.draftId entry.attempt = none)
    (hids : ∀ draftId draft, c'.drafts draftId = some draft → draft.id = draftId)
    (htasks : c'.tasks = c.tasks) (hsends : c'.sends = c.sends) (hloaded : c'.loaded = true) :
    Indexed x c' := by
  have hold : ∀ ref ∈ c.entries, c'.heap ref = c.heap ref := by
    intro ref hmem
    rw [hheap, update_of_ne (hs.live ref hmem).ne]
  have hnew : c'.heap c.next = entry := by
    rw [hheap, update_self]
  have hmem : ∀ ref, ref ∈ c'.entries ↔ ref ∈ c.entries ∨ ref = c.next := by
    intro ref
    simp [hentries]
  refine
    { nodup := ?_
      filed := fun ref href => ?_
      found := fun d a ref href => ?_
      ids := hids
      tasks := fun task htask => (hmem _).2 (.inl (h.tasks task (by rwa [← htasks])))
      running := fun ref href => (hmem _).2 (.inl (h.running ref href))
      sends := by rw [hsends]; exact h.sends
      unloaded := fun hfalse => by rw [hloaded] at hfalse; cases hfalse }
  · rw [hentries, nodup_append]
    refine ⟨h.nodup, pairwise_singleton .., fun ref href other hother heq => ?_⟩
    rw [mem_singleton] at hother
    exact (hs.live ref href).ne (heq.trans hother)
  · rcases (hmem ref).1 href with hin | rfl
    · have hslot' := h.filed ref hin
      rw [hold ref hin, hslot, if_neg, hslot']
      rintro ⟨hd, ha⟩
      rw [hd, ha, hnone] at hslot'
      cases hslot'
    · rw [hnew, hslot, if_pos ⟨rfl, rfl⟩]
  · rw [hslot] at href
    split_ifs at href with hda
    · obtain rfl := Option.some.inj href
      rw [hnew]
      exact ⟨(hmem _).2 (.inr rfl), hda.1.symm, hda.2.symm⟩
    · obtain ⟨hin, hd, ha⟩ := h.found d a ref href
      rw [hold ref hin]
      exact ⟨(hmem ref).2 (.inl hin), hd, ha⟩

theorem restore (h : Indexed x c) (hs : Sound x c) (stored : Stored)
    (hnone : c.slot stored.draftId stored.attempt = none) (hloaded : c.loaded = true) :
    Indexed x (c.restore stored) := by
  refine h.alloc hs stored.restore rfl rfl (slot_restore c stored) hnone ?_ rfl rfl hloaded
  intro draftId draft hdraft
  rw [restore_drafts, update_apply] at hdraft
  split_ifs at hdraft with hd
  · obtain rfl := Option.some.inj hdraft
    cases hold : c.drafts stored.draftId with
    | none => exact hd.symm
    | some old => exact (h.ids _ old hold).trans hd.symm
  · exact h.ids draftId draft hdraft

theorem add (h : Indexed none c) (hs : Sound none c) {found : Draft} {attempt sequence : ℕ}
    {value : Settings} (hfound : c.drafts found.id = some found)
    (hnone : found.attempts attempt = none) (hloaded : c.loaded = true) :
    Indexed none (c.add env found attempt sequence value) := by
  refine h.alloc hs (newEntry env found attempt sequence value) rfl rfl (slot_add hfound)
    (by simp [slot, newEntry, hfound, hnone]) ?_ rfl rfl hloaded
  intro draftId draft hdraft
  rw [add_drafts, update_apply] at hdraft
  split_ifs at hdraft with hd
  · obtain rfl := Option.some.inj hdraft
    exact hd.symm
  · exact h.ids draftId draft hdraft

theorem restoreAll (stored : List Stored)
    (hstored : stored.Pairwise fun s t => ¬ (s.draftId = t.draftId ∧ s.attempt = t.attempt)) :
    ∀ {c : Compose}, Indexed x c → Sound x c → c.loaded = true →
      (∀ s ∈ stored, c.slot s.draftId s.attempt = none) →
      Indexed x (stored.foldl Compose.restore c) := by
  induction stored with
  | nil => exact fun h _ _ _ => h
  | cons first rest ih =>
    intro c h hs hloaded hnone
    rw [pairwise_cons] at hstored
    refine ih hstored.2 (h.restore hs first (hnone first (mem_cons_self ..)) hloaded)
      (hs.restore first) hloaded fun s hmem => ?_
    rw [slot_restore, if_neg]
    · exact hnone s (mem_cons_of_mem _ hmem)
    · exact fun hsame => hstored.1 s hmem ⟨hsame.1.symm, hsame.2.symm⟩

theorem load (h : Indexed x c) (hs : Sound x c) : Indexed x (c.load env) := by
  unfold Compose.load
  split
  · exact h
  · next hloaded =>
    obtain ⟨hempty, hdrafts⟩ := h.unloaded (by simpa using hloaded)
    refine Indexed.persist (restoreAll _ ?_ ?_ ?_ rfl fun s _ => ?_)
    · unfold restorable
      split
      · exact h.sends.filter _
      · exact List.Pairwise.nil
    · exact { h with
        nodup := nodup_nil
        filed := nofun
        found := fun d a ref href => by simp [slot, hdrafts] at href
        tasks := fun task htask => by have := h.tasks task htask; rwa [hempty] at this
        running := fun ref href => by have := h.running ref href; rwa [hempty] at this
        unloaded := nofun }
    · exact { hs with live := nofun }
    · simp [slot, hdrafts]

theorem forget (h : Indexed none c) (hmem : ref ∈ c.entries)
    (hfree : ∀ task ∈ c.tasks, task.ref ≠ ref) : Indexed none (c.forget ref) := by
  have hkept : ∀ other, other ∈ (c.forget ref).entries ↔ other ∈ c.entries ∧ other ≠ ref := by
    simp
  have hslot : ∀ d a, (c.forget ref).slot d a =
      if d = (c.heap ref).draftId ∧ a = (c.heap ref).attempt then none else c.slot d a := by
    have hfiled := h.filed ref hmem
    obtain ⟨draft, hdraft, hattempt⟩ := Option.bind_eq_some_iff.1 hfiled
    have hdrafts : (c.forget ref).drafts = update c.drafts (c.heap ref).draftId
        (some (setAttempt draft (c.heap ref).attempt none)) := by
      funext d
      rw [forget_drafts, hdraft]
      simp only [hattempt, if_true]
    exact slot_of_drafts hdrafts fun a => by simp [slot, hdraft]
  refine
    { nodup := h.nodup.filter _
      filed := fun other hother => ?_
      found := fun d a other hother => ?_
      ids := fun draftId draft hdraft => ?_
      tasks := fun task htask => (hkept _).2 ⟨h.tasks task htask, hfree task htask⟩
      running := by rintro _ ⟨⟩
      sends := h.sends
      unloaded := fun hfalse => ?_ }
  · obtain ⟨hin, hne⟩ := (hkept other).1 hother
    change (c.forget ref).slot (c.heap other).draftId (c.heap other).attempt = some other
    rw [hslot, if_neg]
    · exact h.filed other hin
    · exact fun hsame => hne (h.ref_unique hin hmem hsame.1 hsame.2)
  · rw [hslot] at hother
    split_ifs at hother with hsame
    obtain ⟨hin, hd, ha⟩ := h.found d a other hother
    refine ⟨(hkept other).2 ⟨hin, ?_⟩, hd, ha⟩
    rintro rfl
    exact hsame ⟨hd.symm, ha.symm⟩
  · rw [forget_drafts] at hdraft
    cases hold : c.drafts (c.heap ref).draftId with
    | none =>
      rw [hold] at hdraft
      exact h.ids draftId draft hdraft
    | some old =>
      rw [hold] at hdraft
      dsimp only at hdraft
      split_ifs at hdraft
      · rw [update_apply] at hdraft
        split_ifs at hdraft with hd
        · obtain rfl := Option.some.inj hdraft
          exact (h.ids _ old hold).trans hd.symm
        · exact h.ids draftId draft hdraft
      · exact h.ids draftId draft hdraft
  · have hempty := (h.unloaded hfalse).1
    rw [hempty] at hmem
    cases hmem

theorem addDraft (h : Indexed none c) (sequence : ℕ) (payload : DraftPayload) (text : JsString)
    (hloaded : c.loaded = true) (hnone : c.drafts (c.nextDraftId env) = none) :
    Indexed none (c.addDraft env sequence payload text) := by
  -- neither the id of the new draft nor any of its attempts was in use
  have hslot : (c.addDraft env sequence payload text).slot = c.slot := by
    funext d a
    simp only [Compose.slot, Compose.addDraft, Compose.respond_drafts, update_apply]
    split_ifs with hd
    · rw [hd, hnone]
      rfl
    · rfl
  refine { h with
    filed := fun ref hmem => by rw [hslot]; exact h.filed ref hmem
    found := fun d a ref href => by rw [hslot] at href; exact h.found d a ref href
    ids := fun draftId draft hdraft => ?_
    unloaded := fun hfalse => absurd (hloaded.symm.trans hfalse) Bool.noConfusion }
  simp only [Compose.addDraft, Compose.respond_drafts, update_apply] at hdraft
  split_ifs at hdraft with hd
  · obtain rfl := Option.some.inj hdraft
    exact hd.symm
  · exact h.ids draftId draft hdraft

theorem checked (h : Indexed x c) (next : Next) : Indexed x (c.checked env ref next) :=
  Compose.checked_rule (fun _ h => h.congr rfl) (fun h => h.modify _ rfl) (fun h => h.modify _ rfl) h
    next

theorem receiveAnswer (h : Indexed x c) (operation : Option Operation) :
    Indexed x (c.receiveAnswer ref operation) := by
  cases operation with
  | none => exact h
  | some operation =>
    have hheard : Indexed x (c.hearOperation ref operation) :=
      h.congr rfl
    exact hheard.modify (fun entry => entry.apply operation) (Entry.toIdentity_apply _ _)

theorem readStatus (h : Indexed x c) (result : ApiResult) :
    Indexed x (c.readStatus ref result) := by
  cases result with
  | ok operation => exact h.receiveAnswer operation
  | error status code retryAfter =>
    simp only [Compose.readStatus]
    split
    · exact h.modify _ rfl
    · exact h

theorem finish (h : Indexed none c) (dispatch : Dispatch) (code : Option ResultCode)
    (hmem : dispatch.ref ∈ c.entries)
    (hfree : dispatch.done = .send → ∀ task ∈ c.tasks, task.ref ≠ dispatch.ref) :
    Indexed none (c.finish env dispatch code) := by
  unfold Compose.finish
  split
  · next hdone =>
    have hdropped : Indexed none (c.dropWaiters dispatch.ref) := h.modify _ rfl
    exact (hdropped.forget hmem (hfree hdone)).persist.congr rfl
  · have hdropped : Indexed none ((c.persist env).dropWaiters dispatch.ref) :=
      h.persist.modify _ rfl
    exact hdropped.congr rfl
  · exact h.persist.checked _

theorem answerPost (h : Indexed none c) (hs : Sound none c) {i : ℕ} {dispatch : Dispatch}
    (htask : c.tasks[i]? = some (.post dispatch)) (result : ApiResult) :
    Indexed none ((c.take i).answerPost env dispatch result) := by
  have htake : Indexed none (c.take i) := (h.take htask).drop
  have hmem : dispatch.ref ∈ c.entries := h.tasks _ (mem_of_getElem? htask)
  have hfree : dispatch.done = .send → ∀ task ∈ (c.take i).tasks, task.ref ≠ dispatch.ref :=
    fun hdone => ((hs.takeSend htask (by simp [Task.sends, hdone])).running _ rfl).2.2
  cases result with
  | ok operation =>
    refine (htake.receiveAnswer operation).finish _ _ ?_ ?_
    · cases operation <;> exact hmem
    · cases operation <;> exact hfree
  | error status code retryAfter =>
    have hheard : Indexed none ((c.take i).hear (.lost ((c.take i).heap dispatch.ref).key)) :=
      htake.congr rfl
    simp only [Compose.answerPost, Compose.lostPost, Compose.refusedPost]
    split
    · split
      · exact hheard.await (.retry dispatch) hmem
      · exact (hheard.modify _ rfl).finish _ _ hmem hfree
    · split
      · exact (htake.modify _ rfl).finish _ _ hmem hfree
      · exact (htake.modify _ rfl).finish _ _ hmem hfree

end Indexed

/-- The events that neither forget an entry nor make another of its draft: all but a discard, a
reset, and a new draft under an id in use. -/
def Ordinary (c : Compose) (e : Env × Event) : Prop :=
  match e.2 with
  | .draft _ _ => (c.load e.1).drafts ((c.load e.1).nextDraftId e.1) = none
  | .discard _ _ => False
  | .reset => False
  | _ => True

theorem loaded_load (c : Compose) (env : Env) : (c.load env).loaded = true := by
  have hfold : ∀ (stored : List Stored) (c : Compose), c.loaded = true →
      (stored.foldl Compose.restore c).loaded = true := by
    intro stored
    induction stored with
    | nil => exact fun c hc => hc
    | cons first rest ih => exact fun c hc => ih _ hc
  unfold Compose.load
  split
  · assumption
  · exact hfold _ _ rfl

theorem indexed_over_sound {first : Compose} {e : Env × Event} (he : Ordinary first e) :
    ClosedOver first e Sound Indexed where
  say _ _ h := h.congr rfl
  persist _ h := h.persist
  load hs h := h.load hs
  track _ _ h := h.modify _ rfl
  setChecking _ _ _ h := h.modify _ rfl
  join _ _ h _ _ := h.modify _ rfl
  receive operation _ h _ _ := h.receiveAnswer (some operation)
  status _ _ h href _ _ := by
    refine h.await _ ?_
    rcases href with hmem | ⟨d, a, hslot⟩
    · exact hmem
    · exact (h.found d a _ hslot).1
  checkDispatch value next _ h hfiled _ _ _ := by
    obtain ⟨d, a, hslot⟩ := hfiled
    exact (h.await (.post ⟨_, value, e.1.now, 1, .check next⟩) (h.found d a _ hslot).1).congr rfl
  enter {c draftId found attempt} sequence value hc hs h _ hfound hnone _ _ := by
    have hid : found.id = draftId := h.ids draftId found hfound
    subst hid
    have hadd : Indexed none (c.add e.1 found attempt sequence value) :=
      h.add hs hfound hnone (by rw [hc, loaded_load])
    refine { hadd.persist with running := ?_ }
    rintro _ ⟨⟩
    simp [enter]
  sendDispatch {c ref} value _ h :=
    (h.await (.post ⟨ref, value, e.1.now, 1, .send⟩) (h.running ref rfl)).drop.congr rfl
  wait {c ref} value _ h := (h.await (.poll ref value) (h.running ref rfl)).drop
  addDraft {c} sequence payload text hc _ h hdraft _ := by
    rw [Ordinary, hdraft] at he
    exact h.addDraft sequence payload text (by rw [hc, loaded_load]) (by rw [hc]; exact he)
  polled _ h htask := h.take htask
  timer {c i dispatch} _ h htask := by
    have hmem : dispatch.ref ∈ c.entries := h.tasks _ (mem_of_getElem? htask)
    exact ((h.take htask).drop.await
      (.post { dispatch with attempt := dispatch.attempt + 1 }) hmem).congr rfl
  readStatus result _ h htask := (h.take htask).drop.readStatus result
  posted hs h _ htask := h.answerPost hs htask _
  discardEntry sequence draftId ref hdiscard _ h := by
    rw [Ordinary, hdiscard] at he
    exact he.elim
  dropDraft sequence draftId hdiscard _ h := by
    rw [Ordinary, hdiscard] at he
    exact he.elim
  clear hreset _ h := by
    rw [Ordinary, hreset] at he
    exact he.elim
  restart _ _ h := ⟨nodup_nil, nofun, nofun, nofun, nofun, nofun, h.sends, fun _ => ⟨rfl, fun _ => rfl⟩⟩

theorem closed_indexed {first : Compose} {e : Env × Event} (he : Ordinary first e) :
    Closed first e fun x c => Sound x c ∧ Indexed x c :=
  (indexed_over_sound he).and (closed_sound first e)

theorem indexed_step {c : Compose} {e : Env × Event} (he : Ordinary c e)
    (h : Sound none c ∧ Indexed none c) : Sound none (c.step e) ∧ Indexed none (c.step e) :=
  (closed_indexed he).step h

theorem indexed_of_run {c : Compose} {es : List (Env × Event)}
    (hrun : Run (Within Ordinary fun c e c' => c.step e = c') {} es c) :
    Sound none c ∧ Indexed none c := by
  refine hrun.invariant (fun c => Sound none c ∧ Indexed none c) ?_ ?_
  · rintro c e _ h ⟨he, rfl⟩
    exact indexed_step he h
  · exact ⟨⟨nofun, nofun, nofun, nofun, List.Pairwise.nil, nofun⟩, nodup_nil, nofun, nofun,
      nofun, nofun, nofun, List.Pairwise.nil, fun _ => ⟨rfl, fun _ => rfl⟩⟩

end Phone
