import TeleBezel.Phone.Compose

/-!
# What the callbacks of the composer are made of

Every request of the watch and every callback is a chain of a few operations on the composer. An
invariant is followed through each of these once, with what the code has checked before it, and
then through every event. While a callback of `send` runs, its entry is in nobody's list of
tasks: the invariant is told of that entry.
-/

open List

namespace Phone

def Filed (c : Compose) (ref : ℕ) : Prop := ∃ draftId attempt, c.slot draftId attempt = some ref

/-- `checked` makes an entry tracked or ends its check, and says so. -/
theorem Compose.checked_rule {P : Compose → Prop} {env : Env} {c : Compose} {ref : ℕ}
    (hsay : ∀ {c} output, P c → P { c with output := output })
    (htrack : ∀ {c}, P c → P (c.modify ref fun entry => entry.setTracked env.now))
    (hended : ∀ {c}, P c → P (c.modify ref fun entry => entry.setChecking false)) (hc : P c)
    (next : Next) : P (c.checked env ref next) := by
  cases next with
  | sendCheck sequence =>
    simp only [Compose.checked]
    split
    · exact htrack (hsay _ hc)
    · exact hsay _ hc
  | resync before =>
    simp only [Compose.checked]
    split
    · exact hsay _ (hended hc)
    · exact hended hc

/-- The operations of an event that finds the composer `first` keep a property of the entry that is
being sent by the callback itself, if any, and of the composer, where `G` holds before. What is done
only once in an event is asked about the composer it is done to. -/
structure ClosedOver (first : Compose) (e : Env × Event) (G P : Option ℕ → Compose → Prop) : Prop where
  say : ∀ {x c} output, G x c → P x c → P x { c with output := output }
  persist : ∀ {x c}, G x c → P x c → P x (c.persist e.1)
  load : ∀ {x c}, G x c → P x c → P x (c.load e.1)
  track : ∀ {x c} ref, G x c → P x c → P x (c.modify ref fun entry => entry.setTracked e.1.now)
  setChecking : ∀ {x c} ref checking, G x c → P x c →
    P x (c.modify ref fun entry => entry.setChecking checking)
  join : ∀ {x c ref} sequence, G x c → P x c → Filed c ref → (c.heap ref).state = .dispatching →
    P x (c.modify ref fun entry => entry.setWaiters (entry.waiters ++ [sequence]))
  receive : ∀ {x c ref} operation, G x c → P x c → ref ∈ c.entries → (c.heap ref).known →
    P x (c.receive ref operation)
  status : ∀ {x c ref} next, G x c → P x c → ref ∈ c.entries ∨ Filed c ref → (c.heap ref).known →
    (c.heap ref).state ≠ .dispatching → P x (c.await (.status ref next))
  checkDispatch : ∀ {x c ref} value next, G x c → P x c → Filed c ref → ¬ (c.heap ref).known →
    (c.heap ref).state ≠ .dispatching → (c.heap ref).state ≠ .sent →
    P x (c.dispatch e.1 ref value (.check next))
  enter : ∀ {c draftId found attempt} sequence value, c = first.load e.1 → G none c → P none c →
    (∃ sequence payload, e.2 = .send sequence payload) → c.drafts draftId = some found →
    found.attempts attempt = none → c.busy = false → e.1.settings = some value →
    P (some c.next) (c.enter e.1 found attempt sequence value)
  sendDispatch : ∀ {c ref} value, G (some ref) c → P (some ref) c → P none (c.dispatch e.1 ref value .send)
  wait : ∀ {c ref} value, G (some ref) c → P (some ref) c → P none (c.await (.poll ref value))
  addDraft : ∀ {c} sequence payload text, c = first.load e.1 → G none c → P none c →
    e.2 = .draft sequence payload → Compose.target payload →
    P none (c.addDraft e.1 sequence payload text)
  polled : ∀ {c i ref value}, G none c → P none c → c.tasks[i]? = some (.poll ref value) →
    P (some ref) (c.take i)
  timer : ∀ {c i dispatch}, G none c → P none c → c.tasks[i]? = some (.retry dispatch) →
    P none ((c.take i).post dispatch)
  readStatus : ∀ {c i ref next} result, G none c → P none c → c.tasks[i]? = some (.status ref next) →
    P none ((c.take i).readStatus ref result)
  posted : ∀ {i dispatch result}, G none first → P none first → e.2 = .posted i result →
    first.tasks[i]? = some (.post dispatch) → P none ((first.take i).answerPost e.1 dispatch result)
  discardEntry : ∀ {c} sequence draftId ref, e.2 = .discard sequence draftId → G none c → P none c →
    P none (c.discardEntry ref)
  dropDraft : ∀ {c} sequence draftId, e.2 = .discard sequence draftId → G none c → P none c →
    P none (c.dropDraft draftId)
  clear : ∀ {c}, e.2 = .reset → G none c → P none c → P none (c.clear e.1)
  restart : ∀ {c}, e.2 = .restart → G none c → P none c → P none c.restart

/-- The operations of an event keep a property. -/
abbrev Closed (first : Compose) (e : Env × Event) (P : Option ℕ → Compose → Prop) : Prop :=
  ClosedOver first e (fun _ _ => True) P

namespace Closed

variable {env : Env} {event : Event} {P : Option ℕ → Compose → Prop} {x : Option ℕ}
  {first c : Compose}

theorem checked (h : Closed first (env, event) P) (ref : ℕ) (next : Next) (hP : P x c) :
    P x (c.checked env ref next) :=
  Compose.checked_rule (fun output => h.say output trivial) (h.track ref trivial)
    (h.setChecking ref false trivial) hP next

variable {run : Compose × List ℕ}

theorem consumeEvent (h : Closed first (env, event) P) (operation : Operation)
    {ref : ℕ} (hP : P x run.1) (href : ref ∈ run.1.entries) :
    P x (Compose.consumeEvent operation run ref).1 := by
  unfold Compose.consumeEvent
  split
  · next hconcerns =>
    simp only [Compose.concerns, Bool.and_eq_true] at hconcerns
    exact h.receive operation trivial hP href hconcerns.1
  · exact hP

@[simp] theorem entries_receive (c : Compose) (ref : ℕ) (operation : Operation) :
    (c.receive ref operation).entries = c.entries := rfl

theorem entries_consumeEvent (operation : Operation) (run : Compose × List ℕ) (ref : ℕ) :
    (Compose.consumeEvent operation run ref).1.entries = run.1.entries := by
  unfold Compose.consumeEvent
  split
  · exact entries_receive _ _ _
  · rfl

section

variable (h : Closed first (env, event) P)
include h

theorem consumeEntries (operation : Operation) (refs : List ℕ)
    (hP : P x run.1) (hrefs : ∀ ref ∈ refs, ref ∈ run.1.entries) :
    P x (refs.foldl (Compose.consumeEvent operation) run).1 := by
  induction refs generalizing run with
  | nil => exact hP
  | cons ref refs ih =>
    refine ih (h.consumeEvent operation hP (hrefs _ (mem_cons_self ..))) ?_
    intro other hother
    rw [entries_consumeEvent]
    exact hrefs _ (mem_cons_of_mem _ hother)

theorem consumeEvents (operations : List Operation) (hP : P x run.1) :
    P x (operations.foldl
      (fun run event => run.1.entries.foldl (Compose.consumeEvent event) run) run).1 := by
  induction operations generalizing run with
  | nil => exact hP
  | cons operation operations ih =>
    exact ih (h.consumeEntries operation _ hP fun _ => id)

theorem consumeAll (outcome : Outcome) (hP : P x c) :
    P x (c.consumeAll outcome).1 := by
  unfold Compose.consumeAll
  split
  · exact h.consumeEvents outcome.events hP
  · exact hP

theorem recheck_refs (value : Settings) (refs : List ℕ) (hP : P x c)
    (hrefs : ∀ ref ∈ refs, ref ∈ c.entries ∧ (c.heap ref).known ∧
      (c.heap ref).state ≠ .dispatching) :
    P x (refs.foldl (Compose.recheck env value) c) := by
  induction refs generalizing c with
  | nil => exact hP
  | cons ref refs ih =>
    obtain ⟨hmem, hknown, hstate⟩ := hrefs ref (mem_cons_self ..)
    -- the check of an entry with an operation is a status request
    have hcheck : Compose.recheck env value c ref =
        (c.modify ref fun entry => entry.setChecking true).await
          (.status ref (.resync (c.heap ref).state)) := by
      have hk : ((c.heap ref).setChecking true).known = true := hknown
      simp [Compose.recheck, Compose.check, hk]
    have hheap : ∀ other, ((Compose.recheck env value c ref).heap other).known =
        (c.heap other).known ∧ ((Compose.recheck env value c ref).heap other).state =
        (c.heap other).state := by
      intro other
      rw [hcheck]
      by_cases heq : other = ref
      · subst heq
        simp [Entry.setChecking, Entry.known]
      · simp [heq]
    rw [foldl_cons]
    refine ih ?_ ?_
    · rw [hcheck]
      refine h.status _ trivial (h.setChecking ref true trivial hP) (.inl hmem) ?_ ?_
      · simpa [Entry.setChecking, Entry.known] using hknown
      · simpa [Entry.setChecking] using hstate
    · intro other hother
      obtain ⟨hmem', hknown', hstate'⟩ := hrefs other (mem_cons_of_mem _ hother)
      rw [(hheap other).1, (hheap other).2]
      exact ⟨by rw [hcheck]; exact hmem', hknown', hstate'⟩

theorem resync (value : Settings) (account : JsString)
    (outcome : Outcome) (hP : P x c) : P x (c.resync env value account outcome) := by
  unfold Compose.resync
  split
  · refine h.recheck_refs value _ hP fun ref href => ?_
    simp only [Compose.unresolved, mem_filter, Bool.and_eq_true, Bool.or_eq_true,
      decide_eq_true_eq] at href
    obtain ⟨hmem, ⟨⟨-, hknown⟩, hstate⟩, -⟩ := href
    refine ⟨hmem, hknown, ?_⟩
    rcases hstate with hs | hs <;> rw [hs] <;> exact SendState.noConfusion
  · exact hP

theorem consume (value : Settings) (account : JsString)
    (outcome : Outcome) (hP : P x c) : P x (c.consume env value account outcome) :=
  h.say _ trivial (h.persist trivial (h.resync value account outcome
    (h.consumeAll outcome (h.load trivial hP))))

end

theorem draft (sequence : ℕ) (payload : DraftPayload)
    (h : Closed c (env, .draft sequence payload) P) (hP : P none c) :
    P none (c.draft env sequence payload) := by
  have hload := h.load trivial hP
  unfold Compose.draft
  split
  · exact h.say _ trivial hload
  · next htarget =>
    split
    · exact h.say _ trivial hload
    · exact h.say _ trivial hload
    · exact h.addDraft _ _ _ rfl trivial hload rfl (by simpa using htarget)

theorem send (sequence : ℕ) (payload : SendPayload)
    (h : Closed c (env, .send sequence payload) P) (hP : P none c) :
    P none (c.send env sequence payload) := by
  have hload := h.load trivial hP
  simp only [Compose.send, Compose.sendDraft, Compose.join, Compose.sendNew]
  split
  · exact h.say _ trivial hload
  next found hfound =>
  split
  · exact h.say _ trivial hload
  split
  · exact h.say _ trivial hload
  split
  · next ref href =>
    split
    · next hstate =>
      have hfiled : Filed (c.load env) ref :=
        ⟨payload.draftId, Compose.attemptOf payload, by simp [Compose.slot, hfound, href]⟩
      exact h.join sequence trivial hload hfiled hstate
    · exact h.say _ trivial hload
  next hnone =>
  split
  · exact h.say _ trivial hload
  next hbusy =>
  split
  · exact h.say _ trivial hload
  next value hvalue =>
  have henter := h.enter sequence value rfl trivial hload ⟨_, _, rfl⟩ hfound hnone (by simpa using hbusy)
    hvalue
  simp only [Compose.begin]
  split
  · exact h.sendDispatch value trivial henter
  · exact h.wait value trivial henter

theorem mem_attemptsOf {found : Draft} {ref : ℕ} (h : ref ∈ Compose.attemptsOf found) :
    ∃ attempt, found.attempts attempt = some ref := by
  simp only [Compose.attemptsOf, mem_filterMap] at h
  obtain ⟨attempt, -, h⟩ := h
  exact ⟨attempt, h⟩

theorem latest_mem {found : Draft} {ref : ℕ} (h : c.latest found = some ref) :
    ref ∈ Compose.attemptsOf found := by
  have hall : ∀ ref, c.latest found = some ref → ref ∈ Compose.attemptsOf found := by
    refine List.foldlRecOn (motive := fun best => ∀ ref, best = some ref →
      ref ∈ Compose.attemptsOf found) _ _ (by rintro _ ⟨⟩) ?_
    intro best hbest first hfirst ref hnext
    cases best with
    | none =>
      cases hnext
      exact hfirst
    | some b =>
      dsimp only at hnext
      split at hnext
      · cases hnext
        exact hfirst
      · exact hbest ref hnext
  exact hall ref h

theorem sendCheck (h : Closed first (env, event) P) (sequence draftId : ℕ) (hP : P none c) :
    P none (c.sendCheck env sequence draftId) := by
  have hload := h.load trivial hP
  simp only [Compose.sendCheck, Compose.inquire, Compose.check]
  split
  · exact h.say _ trivial hload
  next ref href =>
  have hfiled : Filed (c.load env) ref := by
    obtain ⟨found, hfound, hlatest⟩ := Option.bind_eq_some_iff.1 href
    obtain ⟨attempt, hattempt⟩ := mem_attemptsOf (latest_mem hlatest)
    exact ⟨draftId, attempt, by simp [Compose.slot, hfound, hattempt]⟩
  split
  · next hstate => exact h.join sequence trivial hload hfiled hstate
  next hstate =>
  split
  · exact h.say _ trivial hload
  split
  · exact h.say _ trivial hload
  next hopen =>
  rw [not_or] at hopen
  split
  · next hknown => exact h.status _ trivial hload (.inr hfiled) hknown hstate
  · next hknown => exact h.checkDispatch _ _ trivial hload hfiled hknown hstate hopen.1

theorem discard (sequence draftId : ℕ) (h : Closed first (env, .discard sequence draftId) P)
    (hP : P none c) : P none (c.discard env sequence draftId) := by
  have hload := h.load trivial hP
  have hfold : ∀ (refs : List ℕ) (c : Compose), P none c →
      P none (refs.foldl Compose.discardEntry c) := by
    intro refs
    induction refs with
    | nil => exact fun c hc => hc
    | cons ref refs ih => exact fun c hc => ih _ (h.discardEntry _ _ ref rfl trivial hc)
  simp only [Compose.discard, Compose.discardDraft]
  split
  · exact h.say _ trivial hload
  · exact h.say _ trivial (h.persist trivial (h.dropDraft _ _ rfl trivial (hfold _ _ hload)))

theorem restoredRecords (h : Closed first (env, event) P) (fresh : JsString → Bool) (hP : P none c) :
    P none (c.restoredRecords env fresh) := by
  have hfold : ∀ (refs : List ℕ) (c : Compose), P none c →
      P none (refs.foldl (Compose.retrack env) c) := by
    intro refs
    induction refs with
    | nil => exact fun c hc => hc
    | cons ref refs ih =>
      intro c hc
      refine ih _ ?_
      unfold Compose.retrack
      split
      · exact h.track ref trivial hc
      · exact hc
  exact h.say _ trivial (hfold _ _ (h.load trivial hP))

theorem reset (h : Closed first (env, .reset) P) (hP : P none c) : P none (c.reset env) := by
  have hload := h.load trivial hP
  unfold Compose.reset
  dsimp only
  split
  · split
    · exact hload
    · exact h.clear rfl trivial hload
  · exact h.clear rfl trivial hload

theorem step {e : Env × Event} (h : Closed c e P) (hP : P none c) : P none (c.step e) := by
  obtain ⟨env, event⟩ := e
  cases event with
  | draft sequence payload => exact Closed.draft sequence payload h hP
  | send sequence payload => exact Closed.send sequence payload h hP
  | sendCheck sequence draftId => exact h.sendCheck sequence draftId hP
  | discard sequence draftId => exact Closed.discard sequence draftId h hP
  | restoredRecords fresh => exact h.restoredRecords fresh hP
  | poll value account outcome => exact h.consume value account outcome hP
  | polled i outcome =>
    simp only [Compose.step]
    split
    · next ref value htask =>
      exact h.sendDispatch value trivial
        (h.consume value _ outcome (h.polled trivial hP htask))
    · exact hP
  | timer i =>
    simp only [Compose.step]
    split
    · next dispatch htask => exact h.timer trivial hP htask
    · exact hP
  | posted i result =>
    simp only [Compose.step]
    split
    · next dispatch htask => exact h.posted trivial hP rfl htask
    · exact hP
  | status i result =>
    simp only [Compose.step]
    split
    · next ref next htask =>
      exact h.checked ref next (h.persist trivial (h.readStatus result trivial hP htask))
    · exact hP
  | reset => exact Closed.reset h hP
  | restart => exact h.restart rfl trivial hP

end Closed

/-- What holds before is kept as well. -/
theorem ClosedOver.and {first : Compose} {e : Env × Event} {G P : Option ℕ → Compose → Prop}
    (hP : ClosedOver first e G P) (hG : Closed first e G) : Closed first e fun x c => G x c ∧ P x c where
  say output _ h := ⟨hG.say output trivial h.1, hP.say output h.1 h.2⟩
  persist _ h := ⟨hG.persist trivial h.1, hP.persist h.1 h.2⟩
  load _ h := ⟨hG.load trivial h.1, hP.load h.1 h.2⟩
  track ref _ h := ⟨hG.track ref trivial h.1, hP.track ref h.1 h.2⟩
  setChecking ref checking _ h :=
    ⟨hG.setChecking ref checking trivial h.1, hP.setChecking ref checking h.1 h.2⟩
  join sequence _ h hfiled hstate :=
    ⟨hG.join sequence trivial h.1 hfiled hstate, hP.join sequence h.1 h.2 hfiled hstate⟩
  receive operation _ h hmem hknown :=
    ⟨hG.receive operation trivial h.1 hmem hknown, hP.receive operation h.1 h.2 hmem hknown⟩
  status next _ h href hknown hstate :=
    ⟨hG.status next trivial h.1 href hknown hstate, hP.status next h.1 h.2 href hknown hstate⟩
  checkDispatch value next _ h hfiled hknown hstate hsent :=
    ⟨hG.checkDispatch value next trivial h.1 hfiled hknown hstate hsent,
      hP.checkDispatch value next h.1 h.2 hfiled hknown hstate hsent⟩
  enter sequence value hc _ h hsend hfound hnone hbusy hvalue :=
    ⟨hG.enter sequence value hc trivial h.1 hsend hfound hnone hbusy hvalue,
      hP.enter sequence value hc h.1 h.2 hsend hfound hnone hbusy hvalue⟩
  sendDispatch value _ h := ⟨hG.sendDispatch value trivial h.1, hP.sendDispatch value h.1 h.2⟩
  wait value _ h := ⟨hG.wait value trivial h.1, hP.wait value h.1 h.2⟩
  addDraft sequence payload text hc _ h hdraft htarget :=
    ⟨hG.addDraft sequence payload text hc trivial h.1 hdraft htarget,
      hP.addDraft sequence payload text hc h.1 h.2 hdraft htarget⟩
  polled _ h htask := ⟨hG.polled trivial h.1 htask, hP.polled h.1 h.2 htask⟩
  timer _ h htask := ⟨hG.timer trivial h.1 htask, hP.timer h.1 h.2 htask⟩
  readStatus result _ h htask :=
    ⟨hG.readStatus result trivial h.1 htask, hP.readStatus result h.1 h.2 htask⟩
  posted _ h hposted htask := ⟨hG.posted trivial h.1 hposted htask, hP.posted h.1 h.2 hposted htask⟩
  discardEntry sequence draftId ref hdiscard _ h :=
    ⟨hG.discardEntry sequence draftId ref hdiscard trivial h.1,
      hP.discardEntry sequence draftId ref hdiscard h.1 h.2⟩
  dropDraft sequence draftId hdiscard _ h :=
    ⟨hG.dropDraft sequence draftId hdiscard trivial h.1, hP.dropDraft sequence draftId hdiscard h.1 h.2⟩
  clear hreset _ h := ⟨hG.clear hreset trivial h.1, hP.clear hreset h.1 h.2⟩
  restart hrestart _ h := ⟨hG.restart hrestart trivial h.1, hP.restart hrestart h.1 h.2⟩

end Phone
