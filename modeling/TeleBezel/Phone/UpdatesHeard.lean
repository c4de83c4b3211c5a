import TeleBezel.Phone.Updates

/-!
# No event is lost

Every event that an updates answer has returned was applied to the entries of its operation, unless
such an entry was terminal or a status request about it was under way. This asks for two things that
the code does not see to: that some callback of the batch hands the outcome on, and that an entry is
not told of its operation after an event of the operation has been returned.
-/

open List

namespace Phone

open Transition Compose Function

variable {env : Env} {c c' c'' : Compose}

structure Steady (c c' : Compose) : Prop where
  operationId : ∀ ref, (c'.heap ref).operationId = (c.heap ref).operationId
  entries : c'.entries ⊆ c.entries
  loaded : c.loaded = true → c'.loaded = true

namespace Steady

theorem refl (c : Compose) : Steady c c := ⟨fun _ => rfl, List.Subset.refl _, id⟩

theorem trans (h : Steady c c') (h' : Steady c' c'') : Steady c c'' where
  operationId ref := (h'.operationId ref).trans (h.operationId ref)
  entries := List.Subset.trans h'.entries h.entries
  loaded hloaded := h'.loaded (h.loaded hloaded)

theorem of_eq (hheap : c'.heap = c.heap) (hentries : c'.entries = c.entries)
    (hloaded : c'.loaded = c.loaded) : Steady c c' where
  operationId ref := by rw [hheap]
  entries := by
    rw [hentries]
    exact List.Subset.refl _
  loaded h := hloaded.trans h

theorem modify (c : Compose) (ref : ℕ) (f : Entry → Entry)
    (hf : (f (c.heap ref)).operationId = (c.heap ref).operationId) : Steady c (c.modify ref f) where
  operationId other := by
    rw [modify_heap, update_apply]
    split
    · rename_i heq
      rw [hf, heq]
    · rfl
  entries := List.Subset.refl _
  loaded := id

theorem persist (env : Env) (c : Compose) : Steady c (c.persist env) := of_eq rfl rfl rfl

theorem forget (c : Compose) (ref : ℕ) : Steady c (c.forget ref) where
  operationId _ := rfl
  entries _ h := mem_of_mem_filter h
  loaded := id

theorem foldl {α : Type*} {f : Compose → α → Compose} (hf : ∀ c a, Steady c (f c a))
    (items : List α) (c : Compose) : Steady c (items.foldl f c) := by
  induction items generalizing c with
  | nil => exact refl c
  | cons item items ih => exact (hf c item).trans (ih _)

theorem checked (c : Compose) (ref : ℕ) (next : Next) : Steady c (c.checked env ref next) :=
  Compose.checked_rule (fun _ h => h.trans (of_eq rfl rfl rfl))
    (fun h => h.trans (modify _ ref _ rfl)) (fun h => h.trans (modify _ ref _ rfl)) (refl c) next

theorem finish (c : Compose) (dispatch : Dispatch) (code : Option ResultCode) :
    Steady c (c.finish env dispatch code) := by
  unfold Compose.finish
  split
  · have hdropped : Steady c (c.dropWaiters dispatch.ref) := modify _ _ _ rfl
    have hstored : Steady c (((c.dropWaiters dispatch.ref).forget dispatch.ref).persist env) :=
      (hdropped.trans (forget _ dispatch.ref)).trans (persist env _)
    exact hstored.trans (of_eq rfl rfl rfl)
  · have hdropped : Steady c ((c.persist env).dropWaiters dispatch.ref) :=
      (persist env c).trans (modify _ _ _ rfl)
    exact hdropped.trans (of_eq rfl rfl rfl)
  · exact (persist env c).trans (checked _ _ _)

theorem answerPost_error (c : Compose) (dispatch : Dispatch) (status : ℕ) (code : Option ApiCode)
    (retryAfter : ℕ) : Steady c (c.answerPost env dispatch (.error status code retryAfter)) := by
  have hheard : Steady c (c.hear (.lost (c.heap dispatch.ref).key)) := of_eq rfl rfl rfl
  simp only [answerPost, lostPost, refusedPost]
  split
  · split
    · exact hheard.trans (of_eq rfl rfl rfl)
    · exact (hheard.trans (modify _ dispatch.ref Entry.setUnknown rfl)).trans (finish _ _ _)
  · split
    · exact (modify c dispatch.ref _ rfl).trans (finish _ _ _)
    · exact (modify c dispatch.ref _ rfl).trans (finish _ _ _)

theorem discardEntry (c : Compose) (ref : ℕ) : Steady c (c.discardEntry ref) := by
  unfold Compose.discardEntry
  split
  · exact (modify c ref Entry.discard rfl).trans (forget _ ref)
  · exact refl c

theorem dropDraft (c : Compose) (draftId : ℕ) : Steady c (c.dropDraft draftId) := by
  unfold Compose.dropDraft
  split
  · exact of_eq rfl rfl rfl
  · exact refl c

theorem check (c : Compose) (ref : ℕ) (value : Settings) (next : Next) :
    Steady c (c.check env ref value next) := by
  unfold Compose.check
  split
  · exact of_eq rfl rfl rfl
  · exact of_eq rfl rfl rfl

theorem recheck (value : Settings) (c : Compose) (ref : ℕ) :
    Steady c (recheck env value c ref) :=
  (modify c ref _ rfl).trans (check _ ref value _)

theorem resync (c : Compose) (value : Settings) (account : JsString) (outcome : Outcome) :
    Steady c (c.resync env value account outcome) := by
  unfold Compose.resync
  split
  · exact foldl (recheck value) _ c
  · exact refl c

theorem consumeEvent (event : Operation) (run : Compose × List ℕ) (ref : ℕ) :
    Steady run.1 (Compose.consumeEvent event run ref).1 := by
  unfold Compose.consumeEvent
  split
  · rename_i hconcerns
    simp only [Compose.concerns, Bool.and_eq_true, decide_eq_true_eq] at hconcerns
    have hheard : Steady run.1 (run.1.hearOperation ref event) := of_eq rfl rfl rfl
    refine hheard.trans (modify _ ref (fun entry => entry.apply event) ?_)
    obtain ⟨hknown, hid⟩ := hconcerns
    have htaken : (run.1.heap ref).taken event = (run.1.heap ref).operationId := by
      rw [Entry.taken, ← hid]
      cases hone : (run.1.heap ref).operationId with
      | none => simp [Entry.known, hone] at hknown
      | some id => rfl
    rcases Entry.apply_cases (run.1.heap ref) event with heq | ⟨state, -, -, -, heq⟩
    · exact (congrArg (fun entry : Entry => entry.operationId) heq).trans htaken
    · exact (congrArg (fun entry : Entry => entry.operationId) heq).trans htaken
  · exact refl _

theorem consumeEntries (event : Operation) (refs : List ℕ) (run : Compose × List ℕ) :
    Steady run.1 (refs.foldl (Compose.consumeEvent event) run).1 := by
  induction refs generalizing run with
  | nil => exact refl _
  | cons ref refs ih => exact (consumeEvent event run ref).trans (ih _)

end Steady

theorem fst_consumeEntries (event : Operation) (refs : List ℕ) (c : Compose) (l l' : List ℕ) :
    (refs.foldl (Compose.consumeEvent event) (c, l)).1 =
      (refs.foldl (Compose.consumeEvent event) (c, l')).1 := by
  have hone : ∀ (c : Compose) (l : List ℕ) (ref : ℕ), ∃ m,
      Compose.consumeEvent event (c, l) ref =
        (if c.concerns event ref then c.receive ref event else c, m) := by
    intro c l ref
    unfold Compose.consumeEvent
    split
    · exact ⟨_, rfl⟩
    · exact ⟨_, rfl⟩
  induction refs generalizing c l l' with
  | nil => rfl
  | cons ref refs ih =>
    obtain ⟨m, hm⟩ := hone c l ref
    obtain ⟨m', hm'⟩ := hone c l' ref
    rw [foldl_cons, foldl_cons, hm, hm']
    exact ih _ m m'

theorem fst_consumeEvents (events : List Operation) (c : Compose) :
    (c.consumeEvents events).1 = events.foldl heed c := by
  have hfold : ∀ (c : Compose) (l : List ℕ), (events.foldl (fun run event =>
      run.1.entries.foldl (Compose.consumeEvent event) run) (c, l)).1 =
        events.foldl heed c := by
    induction events with
    | nil => exact fun _ _ => rfl
    | cons event events ih =>
      intro c l
      rw [foldl_cons, foldl_cons]
      have hfirst := fst_consumeEntries event c.entries c l []
      rw [heed, ← hfirst]
      exact ih _ _
  exact hfold c []

theorem steady_heed (event : Operation) (c : Compose) : Steady c (c.heed event) :=
  Steady.consumeEntries event c.entries (c, [])

variable {events : List Operation} {ref : ℕ} {event : Operation}

theorem mem_heeded (hevent : event ∈ events)
    (h : Steady c c') (hlater : Steady (events.foldl heed c) c')
    (href : ref ∈ c'.entries) (hconcerns : c'.concerns event ref = true) :
    (ref, event) ∈ c.heeded events := by
  induction events generalizing c with
  | nil => exact absurd hevent not_mem_nil
  | cons first events ih =>
    rw [heeded, mem_append]
    rcases mem_cons.mp hevent with rfl | hrest
    · refine Or.inl (mem_map.mpr ⟨ref, mem_filter.mpr ⟨h.entries href, ?_⟩, rfl⟩)
      rw [Compose.concerns, Entry.known] at hconcerns ⊢
      rw [← h.operationId ref]
      exact hconcerns
    · refine Or.inr (ih hrest ?_ hlater)
      exact (Steady.foldl (fun c event => steady_heed event c) events _).trans hlater

theorem steady_consumeAll (outcome : Outcome) (c : Compose) : Steady c (c.consumeAll outcome).1 := by
  unfold consumeAll
  split
  · rw [fst_consumeEvents]
    exact Steady.foldl (fun c event => steady_heed event c) _ c
  · exact Steady.refl c

theorem load_loaded (c : Compose) : (c.load env).loaded = true := by
  unfold load
  split
  · assumption
  · have hfold : ∀ (stored : List Stored) (c : Compose), c.loaded = true →
        (stored.foldl restore c).loaded = true := by
      intro stored
      induction stored with
      | nil => exact fun _ h => h
      | cons first rest ih => exact fun c h => ih _ h
    exact hfold _ _ rfl

theorem load_of_loaded (hloaded : c.loaded = true) : c.load env = c := if_pos hloaded

variable (account : JsString) (value : Settings)

theorem steady_consume_rest (account : JsString) (outcome : Outcome) (c : Compose) :
    Steady ((c.load env).consumeAll outcome).1 (c.consume env value account outcome) := by
  have hstored : Steady ((c.load env).consumeAll outcome).1
      ((((c.load env).consumeAll outcome).1.resync env value account outcome).persist env) :=
    (Steady.resync _ value account outcome).trans (Steady.persist env _)
  exact hstored.trans (Steady.of_eq rfl rfl rfl)

theorem steady_consume (account : JsString) (outcome : Outcome) (c : Compose) :
    Steady (c.load env) (c.consume env value account outcome) :=
  (steady_consumeAll outcome _).trans (steady_consume_rest value account outcome c)

variable {outcome : Outcome}

theorem mem_heeded_consume (hok : outcome.ok = true) (value : Settings)
    (account : JsString) (hevent : event ∈ outcome.events)
    (hlater : Steady (c.consume env value account outcome) c')
    (href : ref ∈ c'.entries) (hconcerns : c'.concerns event ref = true) :
    (ref, event) ∈ (c.load env).heeded outcome.events := by
  refine mem_heeded hevent ((steady_consume value account outcome c).trans hlater) ?_ href hconcerns
  have hall : ((c.load env).consumeAll outcome).1 =
      outcome.events.foldl heed (c.load env) := by
    rw [consumeAll, if_pos hok, fst_consumeEvents]
  rw [← hall]
  exact (steady_consume_rest value account outcome c).trans hlater

/-! The requests and callbacks of the composer, once its entries are loaded. -/

section Loaded

variable (hloaded : c.loaded = true)
include hloaded

variable (sequence : ℕ)

theorem steady_draft (payload : DraftPayload) :
    Steady c (c.draft env sequence payload) := by
  unfold draft
  rw [load_of_loaded hloaded]
  split
  · exact Steady.of_eq rfl rfl rfl
  · split
    · exact Steady.of_eq rfl rfl rfl
    · exact Steady.of_eq rfl rfl rfl
    · exact Steady.of_eq rfl rfl rfl

theorem steady_sendCheck (draftId : ℕ) : Steady c (c.sendCheck env sequence draftId) := by
  unfold sendCheck
  rw [load_of_loaded hloaded]
  dsimp only
  split
  · exact Steady.of_eq rfl rfl rfl
  · unfold inquire
    split
    · exact Steady.modify _ _ _ rfl
    · split
      · exact Steady.of_eq rfl rfl rfl
      · split
        · exact Steady.of_eq rfl rfl rfl
        · exact Steady.check _ _ _ _

theorem steady_discard (draftId : ℕ) : Steady c (c.discard env sequence draftId) := by
  unfold Compose.discard
  rw [load_of_loaded hloaded]
  dsimp only
  split
  · exact Steady.of_eq rfl rfl rfl
  · rename_i found _
    have hall : Steady c ((attemptsOf found).foldl Compose.discardEntry c) :=
      Steady.foldl Steady.discardEntry _ c
    have hdropped : Steady c (c.discardDraft env draftId found) :=
      (hall.trans (Steady.dropDraft _ draftId)).trans (Steady.persist env _)
    exact hdropped.trans (Steady.of_eq rfl rfl rfl)

theorem steady_restoredRecords (fresh : JsString → Bool) :
    Steady c (c.restoredRecords env fresh) := by
  have hone : ∀ (c : Compose) (ref : ℕ), Steady c (retrack env c ref) := by
    intro c ref
    unfold retrack
    split
    · exact Steady.modify _ _ _ rfl
    · exact Steady.refl c
  unfold restoredRecords
  rw [load_of_loaded hloaded]
  exact (Steady.foldl hone _ c).trans (Steady.of_eq rfl rfl rfl)

theorem steady_reset : Steady c (c.reset env) := by
  have hclear : Steady c (c.clear env) := ⟨fun _ => rfl, nil_subset _, id⟩
  unfold reset
  rw [load_of_loaded hloaded]
  dsimp only
  split
  · split
    · exact Steady.refl c
    · exact hclear
  · exact hclear

variable (payload : SendPayload)

theorem steady_send_or_enter :
    Steady c (c.send env sequence payload) ∨ ∃ found attempt value,
      (c.send env sequence payload).heap = (c.enter env found attempt sequence value).heap ∧
        (c.send env sequence payload).entries =
          (c.enter env found attempt sequence value).entries ∧
        (c.send env sequence payload).loaded = c.loaded := by
  unfold send
  rw [load_of_loaded hloaded]
  dsimp only
  split
  · exact Or.inl (Steady.of_eq rfl rfl rfl)
  next found hfound =>
  unfold sendDraft
  split
  · exact Or.inl (Steady.of_eq rfl rfl rfl)
  split
  · exact Or.inl (Steady.of_eq rfl rfl rfl)
  split
  · unfold join
    split
    · exact Or.inl (Steady.modify _ _ _ rfl)
    · exact Or.inl (Steady.of_eq rfl rfl rfl)
  unfold sendNew
  split
  · exact Or.inl (Steady.of_eq rfl rfl rfl)
  split
  · exact Or.inl (Steady.of_eq rfl rfl rfl)
  · next value hvalue =>
    refine Or.inr ⟨found, attemptOf payload, value, ?_⟩
    unfold begin
    split
    · exact ⟨rfl, rfl, rfl⟩
    · exact ⟨rfl, rfl, rfl⟩

theorem known_send (href : ref ∈ (c.send env sequence payload).entries)
    (hknown : ((c.send env sequence payload).heap ref).known = true) :
    ref ∈ c.entries ∧
      ((c.send env sequence payload).heap ref).operationId = (c.heap ref).operationId := by
  rcases steady_send_or_enter hloaded sequence payload with
    hsteady | ⟨found, attempt, value, hheap, hentries, -⟩
  · exact ⟨hsteady.entries href, hsteady.operationId ref⟩
  · rw [hentries] at href
    rw [hheap] at hknown ⊢
    simp only [enter, persist_heap, add_heap, persist_entries,
      add_entries, mem_append, mem_singleton] at href hknown ⊢
    by_cases hnew : ref = c.next
    · rw [hnew, update_self] at hknown
      exact absurd hknown (by simp [newEntry, Entry.known])
    · rw [update_of_ne hnew]
      exact ⟨href.resolve_right hnew, rfl⟩

end Loaded

def Operation.tells (operation : Operation) : Option JsString :=
  operation.operationId.or operation.id

/-- The answer to a POST comes in time: it names the operation that the entry knows, or one of which
no event has been returned; or the entry is excused, or becomes terminal. -/
def HeardInTime (r : Reader) (ref : ℕ) (operation : Operation) : Prop :=
  ∀ id, operation.tells = some id →
    (r.compose.heap ref).operationId = some id ∨
      (∀ event ∈ r.returned, event.operationId ≠ some id) ∨
      r.compose.excuses ref = true ∨ operation.state.any terminal = true

/-- The condition on an event: some callback hands the outcome of an answer on, unless the entries
its events are about are excused; and the answers to POSTs come in time. -/
def Heeds (r : Reader) : Env × ReaderEvent → Prop
  | (_, .answer account (.ok _ events)) =>
    ∀ batch, r.updates.waiting account = some batch →
      (∃ callback ∈ batch.callbacks, r.hears { ok := true } callback = true) ∨
        r.compose.loaded = true ∧ ∀ event ∈ events, ∀ ref ∈ r.compose.entries,
          r.compose.concerns event ref = true → r.compose.excuses ref = true
  | (_, .compose (.posted i (.ok (some operation)))) =>
    ∀ dispatch, r.compose.tasks[i]? = some (.post dispatch) → HeardInTime r dispatch.ref operation
  | _ => True

/-- What was returned was applied, to every entry of its operation that is not excused. -/
structure NothingLost (r : Reader) : Prop where
  loaded : r.returned ≠ [] → r.compose.loaded = true
  applied : ∀ event ∈ r.returned, ∀ ref ∈ r.compose.entries, r.compose.concerns event ref = true →
    (ref, event) ∈ r.applied ∨ (ref, event) ∈ r.excused

def Noted (r : Reader) : Prop :=
  ∀ event ∈ r.returned, ∀ ref ∈ r.compose.entries, r.compose.excuses ref = true →
    (ref, event) ∈ r.excused

variable {r r' r'' : Reader}

structure Passed (r r' : Reader) : Prop where
  returned : r'.returned = r.returned
  applied : r.applied ⊆ r'.applied
  excused : r.excused ⊆ r'.excused
  steady : r.compose.loaded = true → Steady r.compose r'.compose

namespace Passed

theorem refl (r : Reader) : Passed r r :=
  ⟨rfl, List.Subset.refl _, List.Subset.refl _, fun _ => Steady.refl _⟩

theorem trans (h : Passed r r') (h' : Passed r' r'') : Passed r r'' where
  returned := h'.returned.trans h.returned
  applied := List.Subset.trans h.applied h'.applied
  excused := List.Subset.trans h.excused h'.excused
  steady hloaded := (h.steady hloaded).trans (h'.steady ((h.steady hloaded).loaded hloaded))

theorem hand (outcome : Outcome) (callback : Listener) (r : Reader) :
    Passed r (r.hand env account outcome callback) := by
  have hconsume : ∀ (c : Compose) (value : Settings) (account : JsString), c.loaded = true →
      Steady c (c.consume env value account outcome) := by
    intro c value account hloaded
    have h : Steady (c.load env) (c.consume env value account outcome) :=
      steady_consume value account outcome c
    rwa [load_of_loaded hloaded] at h
  cases callback with
  | events slot value =>
    simp only [Reader.hand]
    split
    · exact refl r
    · split
      · exact ⟨rfl, List.Subset.refl _, List.Subset.refl _, fun _ => Steady.refl _⟩
      · exact ⟨rfl, subset_append_left _ _, List.Subset.refl _, hconsume _ _ _⟩
  | track value =>
    exact ⟨rfl, subset_append_left _ _, List.Subset.refl _, hconsume _ _ _⟩
  | send ref value =>
    refine ⟨rfl, subset_append_left _ _, List.Subset.refl _, fun hloaded => ?_⟩
    have htaken : Steady r.compose
        (r.compose.take (r.compose.tasks.idxOf (.poll ref value))) := Steady.of_eq rfl rfl rfl
    exact (htaken.trans (hconsume _ _ _ hloaded)).trans (Steady.of_eq rfl rfl rfl)

theorem deliver (outcome : Outcome) (callbacks : List Listener) (r : Reader) :
    Passed r (callbacks.foldl (fun r callback => r.hand env account outcome callback) r) := by
  induction callbacks generalizing r with
  | nil => exact refl r
  | cons callback callbacks ih => exact (hand account outcome callback r).trans (ih _)

end Passed

structure Caught (events : List Operation) (r : Reader) : Prop where
  loaded : r.compose.loaded = true
  applied : ∀ event ∈ events, ∀ ref ∈ r.compose.entries, r.compose.concerns event ref = true →
    (ref, event) ∈ r.applied

theorem Steady.concerns (h : Steady c c') (event : Operation) (ref : ℕ) :
    c'.concerns event ref = c.concerns event ref := by
  rw [Compose.concerns, Compose.concerns, Entry.known, Entry.known, h.operationId ref]

theorem Caught.passed (h : Caught events r) (hpassed : Passed r r') :
    Caught events r' := by
  have hsteady := hpassed.steady h.loaded
  refine ⟨hsteady.loaded h.loaded, fun event hevent ref href hconcerns => ?_⟩
  rw [hsteady.concerns] at hconcerns
  exact hpassed.applied (h.applied event hevent ref (hsteady.entries href) hconcerns)

theorem caught_consume (hok : outcome.ok = true) (value : Settings)
    (account : JsString) {applied : List (ℕ × Operation)}
    (happlied : r.applied = applied ++ Reader.log env c outcome)
    (hlater : Steady (c.consume env value account outcome) r.compose) :
    Caught outcome.events r := by
  refine ⟨hlater.loaded ((steady_consume value account outcome c).loaded (load_loaded c)),
    fun event hevent ref href hconcerns => ?_⟩
  rw [happlied, mem_append, Reader.log, if_pos hok]
  exact Or.inr (mem_heeded_consume hok value account hevent hlater href hconcerns)

variable {callback : Listener}

theorem caught_hand (hok : outcome.ok = true) (account : JsString)
    (hhears : r.hears outcome callback = true) :
    Caught outcome.events (r.hand env account outcome callback) := by
  cases callback with
  | events slot value =>
    simp only [Reader.hears, hok, Bool.and_true, decide_eq_true_eq] at hhears
    simp only [Reader.hand, hhears, hok, ne_eq, not_true_eq_false, if_false, Bool.true_eq_false]
    exact caught_consume hok value account rfl (Steady.refl _)
  | track value => exact caught_consume hok value account rfl (Steady.refl _)
  | send ref value =>
    exact caught_consume hok value (r.compose.heap ref).account rfl (Steady.of_eq rfl rfl rfl)

theorem hand_of_deaf (hok : outcome.ok = true) (account : JsString)
    (hdeaf : r.hears outcome callback ≠ true) :
    r.hand env account outcome callback = r := by
  cases callback with
  | events slot value =>
    simp only [Reader.hears, hok, Bool.and_true, ne_eq, decide_eq_true_eq] at hdeaf
    simp [Reader.hand, hdeaf]
  | track value | send ref value => exact absurd rfl hdeaf

variable {callbacks : List Listener}

theorem caught_deliver (outcome : Outcome) (hok : outcome.ok = true) (account : JsString)
    (h : ∃ callback ∈ callbacks, r.hears outcome callback = true) :
    Caught outcome.events
      (callbacks.foldl (fun r callback => r.hand env account outcome callback) r) := by
  induction callbacks with
  | nil => exact absurd h (by simp)
  | cons callback callbacks ih =>
    rw [foldl_cons]
    by_cases hhears : r.hears outcome callback = true
    · exact (caught_hand hok account hhears).passed (Passed.deliver account outcome callbacks _)
    · rw [hand_of_deaf hok account hhears]
      obtain ⟨other, hmem, hother⟩ := h
      rcases mem_cons.mp hmem with rfl | hrest
      · exact absurd hother hhears
      · exact ih ⟨other, hrest, hother⟩

theorem deliver_of_deaf (hok : outcome.ok = true) (account : JsString)
    (h : ¬ ∃ callback ∈ callbacks, r.hears outcome callback = true) :
    callbacks.foldl (fun r callback => r.hand env account outcome callback) r = r := by
  induction callbacks with
  | nil => rfl
  | cons callback callbacks ih =>
    have hdeaf : r.hears outcome callback ≠ true :=
      fun hhears => h ⟨callback, mem_cons_self, hhears⟩
    rw [foldl_cons, hand_of_deaf hok account hdeaf]
    exact ih fun ⟨other, hmem, hother⟩ => h ⟨other, mem_cons_of_mem _ hmem, hother⟩

structure Accounted (r : Reader) : Prop where
  loaded : r.returned ≠ [] → r.compose.loaded = true
  applied : ∀ event ∈ r.returned, ∀ ref ∈ r.compose.entries, r.compose.concerns event ref = true →
    (ref, event) ∈ r.applied ∨ (ref, event) ∈ r.excused ∨ r.compose.excuses ref = true

theorem Accounted.note (h : Accounted r) : NothingLost r.note ∧ Noted r.note := by
  have hnoted : Noted r.note := by
    intro event hevent ref href hexcuses
    refine mem_append_right _ (mem_flatMap.mpr ⟨ref, ?_, ?_⟩)
    · exact mem_filter.mpr ⟨href, hexcuses⟩
    · exact mem_map.mpr ⟨event, hevent, rfl⟩
  refine ⟨⟨h.loaded, fun event hevent ref href hconcerns => ?_⟩, hnoted⟩
  rcases h.applied event hevent ref href hconcerns with happlied | hexcused | hexcuses
  · exact Or.inl happlied
  · exact Or.inr (mem_append_left _ hexcused)
  · exact Or.inr (hnoted event hevent ref href hexcuses)

section

variable (h : NothingLost r) (hreturned : r'.returned = r.returned) (happlied : r.applied ⊆
  r'.applied) (hexcused : r.excused ⊆ r'.excused)
include h hreturned happlied hexcused

theorem NothingLost.accounted (hcompose : r.compose.loaded = true → r'.compose.loaded = true ∧
      ∀ ref ∈ r'.compose.entries, ∀ event ∈ r.returned, r'.compose.concerns event ref = true →
        ref ∈ r.compose.entries ∧ r.compose.concerns event ref = true ∨
          (ref, event) ∈ r.excused ∨ r'.compose.excuses ref = true) : Accounted r' where
  loaded hsome := (hcompose (h.loaded (hreturned ▸ hsome))).1
  applied := by
    intro event hevent ref href hconcerns
    rw [hreturned] at hevent
    have hloaded := h.loaded (ne_nil_of_mem hevent)
    rcases (hcompose hloaded).2 ref href event hevent hconcerns with
      ⟨hbefore, hsame⟩ | hnoted | hexcuses
    · rcases h.applied event hevent ref hbefore hsame with hdone | hnoted
      · exact Or.inl (happlied hdone)
      · exact Or.inr (Or.inl (hexcused hnoted))
    · exact Or.inr (Or.inl (hexcused hnoted))
    · exact Or.inr (Or.inr hexcuses)

theorem NothingLost.steady
    (hsteady : r.compose.loaded = true → Steady r.compose r'.compose) : Accounted r' := by
  refine h.accounted hreturned happlied hexcused fun hloaded => ?_
  have hsame := hsteady hloaded
  refine ⟨hsame.loaded hloaded, fun ref href event _ hconcerns => Or.inl ⟨hsame.entries href, ?_⟩⟩
  rw [hsame.concerns] at hconcerns
  exact hconcerns

end

theorem NothingLost.composer (h : NothingLost r)
    (hsteady : r.compose.loaded = true → Steady r.compose c) :
    Accounted { r with compose := c } :=
  h.steady rfl (List.Subset.refl _) (List.Subset.refl _) hsteady

theorem NothingLost.passed (h : NothingLost r) (hpassed : Passed r r') : Accounted r' :=
  h.steady hpassed.returned hpassed.applied hpassed.excused hpassed.steady

theorem NothingLost.returned {updates : Updates} {resynced : Bool}
    (h : NothingLost r) (account : JsString) (callbacks : List Listener)
    (hheeds : (∃ callback ∈ callbacks, r.hears { ok := true } callback = true) ∨
      r.compose.loaded = true ∧ ∀ event ∈ events, ∀ ref ∈ r.compose.entries,
        r.compose.concerns event ref = true → r.compose.excuses ref = true) :
    Accounted (callbacks.foldl
      (fun r callback => r.hand env account { ok := true, events, resynced } callback)
      { r with updates := updates, returned := r.returned ++ events }) := by
  have hears_iff : ∀ callback,
      Reader.hears { r with updates := updates, returned := r.returned ++ events }
        { ok := true, events, resynced } callback = r.hears { ok := true } callback := by
    intro callback
    cases callback with
    | events slot value => rfl
    | track value => rfl
    | send ref value => rfl
  by_cases hsome : ∃ callback ∈ callbacks, r.hears { ok := true } callback = true
  · have hcaught : Caught events (callbacks.foldl
        (fun r callback => r.hand env account { ok := true, events, resynced } callback)
        { r with updates := updates, returned := r.returned ++ events }) := by
      refine caught_deliver { ok := true, events, resynced } rfl account ?_
      obtain ⟨callback, hmem, hhears⟩ := hsome
      exact ⟨callback, hmem, (hears_iff callback).trans hhears⟩
    have hpassed : Passed { r with updates := updates, returned := r.returned ++ events }
        (callbacks.foldl
          (fun r callback => r.hand env account { ok := true, events, resynced } callback)
          { r with updates := updates, returned := r.returned ++ events }) :=
      Passed.deliver account _ callbacks _
    refine ⟨fun _ => hcaught.loaded, fun event hevent ref href hconcerns => ?_⟩
    rw [hpassed.returned, mem_append] at hevent
    rcases hevent with hold | hnew
    · have hsteady := hpassed.steady (h.loaded (ne_nil_of_mem hold))
      rw [hsteady.concerns] at hconcerns
      rcases h.applied event hold ref (hsteady.entries href) hconcerns with hdone | hnoted
      · exact Or.inl (hpassed.applied hdone)
      · exact Or.inr (Or.inl (hpassed.excused hnoted))
    · exact Or.inl (hcaught.applied event hnew ref href hconcerns)
  · obtain ⟨hloaded, hexcuses⟩ := hheeds.resolve_left hsome
    have hdeaf : ¬ ∃ callback ∈ callbacks,
        Reader.hears { r with updates := updates, returned := r.returned ++ events }
          { ok := true, events, resynced } callback = true :=
      fun ⟨callback, hmem, hhears⟩ => hsome ⟨callback, hmem, (hears_iff callback).symm.trans hhears⟩
    rw [deliver_of_deaf rfl account hdeaf]
    refine ⟨fun _ => hloaded, fun event hevent ref href hconcerns => ?_⟩
    rcases mem_append.mp hevent with hold | hnew
    · exact (h.applied event hold ref href hconcerns).imp_right Or.inl
    · exact Or.inr (Or.inr (hexcuses event hnew ref href hconcerns))

theorem NothingLost.answer (h : NothingLost r) (account : JsString) (result : UpdatesResult)
    (hheeds : Heeds r (env, .answer account result)) :
    Accounted (r.answer env account result) := by
  have hupdates : ∀ updates, NothingLost { r with updates := updates } :=
    fun _ => ⟨h.loaded, h.applied⟩
  unfold Reader.answer
  split
  · exact h.passed (Passed.refl r)
  next batch hbatch =>
  cases result with
  | resync =>
    dsimp only
    split
    · exact (hupdates _).passed (Passed.refl _)
    · exact (hupdates _).passed (Passed.deliver account _ batch.callbacks _)
  | error => exact (hupdates _).passed (Passed.deliver account _ batch.callbacks _)
  | ok cursor events => exact h.returned account batch.callbacks (hheeds batch hbatch)

theorem NothingLost.send (h : NothingLost r) (sequence : ℕ) (payload : SendPayload) :
    Accounted (r.send env sequence payload) := by
  refine h.accounted rfl (List.Subset.refl _) (List.Subset.refl _) fun hloaded => ?_
  constructor
  · rcases steady_send_or_enter hloaded sequence payload with
      hsteady | ⟨found, attempt, value, -, -, hsame⟩
    · exact hsteady.loaded hloaded
    · exact hsame.trans hloaded
  · intro ref href event _ hconcerns
    have hknown := hconcerns
    simp only [Compose.concerns, Bool.and_eq_true] at hknown
    obtain ⟨hbefore, hsame⟩ := known_send hloaded sequence payload href hknown.1
    refine Or.inl ⟨hbefore, ?_⟩
    rw [Compose.concerns, Entry.known, ← hsame]
    exact hconcerns

variable {operation : Operation}

theorem NothingLost.told (h : NothingLost r) {first : Compose}
    (hfirst : Steady r.compose first) (hlater : Steady (first.receive ref operation) c)
    (htold : ref ∈ r.compose.entries → ∀ event ∈ r.returned,
      (first.heap ref).taken operation = event.operationId →
      (first.heap ref).operationId = event.operationId ∨ (ref, event) ∈ r.excused ∨
        c.excuses ref = true) : Accounted { r with compose := c } := by
  refine h.accounted rfl (List.Subset.refl _) (List.Subset.refl _) fun hloaded => ?_
  have hentries : c.entries ⊆ first.entries := hlater.entries
  refine ⟨hlater.loaded (hfirst.loaded hloaded), fun other hother event hevent hconcerns => ?_⟩
  rw [hlater.concerns] at hconcerns
  have hbefore : other ∈ r.compose.entries := hfirst.entries (hentries hother)
  by_cases hsame : other = ref
  · subst hsame
    have htaken : ((first.receive other operation).heap other).operationId =
        (first.heap other).taken operation := by
      rw [receive, modify_heap, update_self]
      rcases Entry.apply_cases (first.heap other) operation with heq | ⟨state, -, -, -, heq⟩
      · exact congrArg (fun entry : Entry => entry.operationId) heq
      · exact congrArg (fun entry : Entry => entry.operationId) heq
    simp only [Compose.concerns, Entry.known, htaken, Bool.and_eq_true, decide_eq_true_eq] at hconcerns
    obtain ⟨hknown, hid⟩ := hconcerns
    rcases htold hbefore event hevent hid with hold | hexcused
    · refine Or.inl ⟨hbefore, ?_⟩
      rw [hid] at hknown
      rw [← hfirst.concerns]
      simp only [Compose.concerns, Entry.known, hold, Bool.and_eq_true, decide_eq_true_eq, and_true]
      exact hknown
    · exact Or.inr hexcused
  · have hheap : (first.receive ref operation).heap other = first.heap other := by
      rw [receive, modify_heap, update_of_ne hsame]
      rfl
    refine Or.inl ⟨hbefore, ?_⟩
    rw [Compose.concerns, hheap, ← Compose.concerns, hfirst.concerns] at hconcerns
    exact hconcerns

theorem terminal_apply (entry : Entry)
    (h : operation.state.any terminal = true) : terminal (entry.apply operation).state = true := by
  obtain ⟨state, hstate, hterminal⟩ := (Option.any_eq_true _ _).mp h
  unfold Entry.apply
  cases haccepted : entry.accepted operation with
  | some other =>
    simp only [Entry.accepted, hstate, Option.filter_eq_some_iff, Option.some.injEq] at haccepted
    rw [← haccepted.1]
    exact hterminal
  | none =>
    -- what is not accepted finds the entry terminal already
    have hrefused : state = .dispatching ∨ entry.state = .sent ∨ entry.state = .failed := by
      simp only [Entry.accepted, hstate, Option.filter_some] at haccepted
      grind
    rcases hrefused with rfl | hsent | hfailed
    · exact absurd hterminal (by decide)
    · simp [terminal, hsent]
    · simp [terminal, hfailed]

theorem state_modify (c : Compose) (ref : ℕ) (f : Entry → Entry)
    (hf : ∀ entry, (f entry).state = entry.state) (other : ℕ) :
    ((c.modify ref f).heap other).state = (c.heap other).state := by
  rw [modify_heap, update_apply]
  split
  · rename_i heq
    rw [hf, heq]
  · rfl

theorem state_finish (env : Env) (c : Compose) (dispatch : Dispatch) (ref : ℕ) :
    ((c.finish env dispatch none).heap ref).state = (c.heap ref).state := by
  have hwaiters : ∀ c : Compose, ((c.dropWaiters dispatch.ref).heap ref).state =
      (c.heap ref).state :=
    fun c => state_modify c _ (fun entry => entry.setWaiters []) (fun _ => rfl) ref
  have htracked : ∀ c : Compose, ((c.modify dispatch.ref fun entry =>
      entry.setTracked env.now).heap ref).state = (c.heap ref).state :=
    fun c => state_modify c _ (fun entry => entry.setTracked env.now) (fun _ => rfl) ref
  have hchecking : ∀ c : Compose, ((c.modify dispatch.ref fun entry =>
      entry.setChecking false).heap ref).state = (c.heap ref).state :=
    fun c => state_modify c _ (fun entry => entry.setChecking false) (fun _ => rfl) ref
  unfold Compose.finish
  cases dispatch.done with
  | send => exact hwaiters _
  | check next =>
    cases next with
    | sendCheck sequence =>
      simp only [checked]
      split
      · exact htracked _
      · rfl
    | resync before =>
      simp only [checked]
      split
      · exact hchecking _
      · exact hchecking _

theorem NothingLost.posted (h : NothingLost r) (hnoted : Noted r) (i : ℕ) (result : ApiResult)
    (hheeds : Heeds r (env, .compose (.posted i result))) :
    Accounted { r with compose := r.compose.step (env, .posted i result) } := by
  simp only [step]
  split
  next dispatch htask =>
    have htaken : Steady r.compose (r.compose.take i) := Steady.of_eq rfl rfl rfl
    cases result with
    | error status code retryAfter =>
      exact h.composer fun _ => htaken.trans (Steady.answerPost_error _ dispatch _ _ _)
    | ok answer =>
      cases answer with
      | none => exact h.composer fun _ => htaken.trans (Steady.finish _ dispatch none)
      | some operation =>
        refine h.told htaken (Steady.finish _ dispatch none) fun hmem event hevent hid => ?_
        have htimely := hheeds dispatch htask
        cases htells : operation.tells with
        | none =>
          rw [Entry.taken, ← Operation.tells, htells] at hid
          exact Or.inl hid
        | some id =>
          rw [Entry.taken, ← Operation.tells, htells] at hid
          rcases htimely id htells with hsame | hnone | hexcuses | hterminal
          · exact Or.inl (hsame.trans hid)
          · exact absurd hid.symm (hnone event hevent)
          · exact Or.inr (Or.inl (hnoted event hevent dispatch.ref hmem hexcuses))
          · refine Or.inr (Or.inr ?_)
            have hstate := state_finish env
              ((r.compose.take i).receive dispatch.ref operation) dispatch dispatch.ref
            rw [receive, modify_heap, update_self] at hstate
            rw [excuses, Bool.or_eq_true]
            refine Or.inl ?_
            exact (congrArg terminal hstate).trans (terminal_apply _ hterminal)
  · exact h.composer fun _ => Steady.refl _

theorem NothingLost.status (h : NothingLost r) (hnoted : Noted r) (i : ℕ) (result : ApiResult) :
    Accounted { r with compose := r.compose.step (env, .status i result) } := by
  simp only [step]
  split
  next ref next htask =>
    have htaken : Steady r.compose (r.compose.take i) := Steady.of_eq rfl rfl rfl
    have hrest : ∀ c : Compose, Steady c ((c.persist env).checked env ref next) :=
      fun c => (Steady.persist env c).trans (Steady.checked _ ref next)
    cases result with
    | error status code retryAfter =>
      have hread : Steady (r.compose.take i)
          ((r.compose.take i).readStatus ref (.error status code retryAfter)) := by
        simp only [readStatus]
        split
        · exact Steady.modify _ ref Entry.setUnknown rfl
        · exact Steady.refl _
      exact h.composer fun _ => (htaken.trans hread).trans (hrest _)
    | ok answer =>
      cases answer with
      | none => exact h.composer fun _ => htaken.trans (hrest _)
      | some operation =>
        refine h.told htaken (hrest _) fun hmem event hevent _ => Or.inr (Or.inl ?_)
        refine hnoted event hevent ref hmem ?_
        -- the request that is answered was under way
        rw [excuses, Bool.or_eq_true, any_eq_true]
        exact Or.inr ⟨_, mem_of_getElem? htask, by simp⟩
  · exact h.composer fun _ => Steady.refl _

theorem nothingLost_step (h : NothingLost r) (hnoted : Noted r) (e : Env × ReaderEvent)
    (hheeds : Heeds r e) : NothingLost (r.step e) ∧ Noted (r.step e) := by
  obtain ⟨env, event⟩ := e
  refine Accounted.note ?_
  cases event with
  | events account =>
    refine h.passed ?_
    simp only [Reader.react, Reader.events]
    split
    · exact Passed.refl r
    · split
      · exact Passed.refl r
      · exact ⟨rfl, List.Subset.refl _, List.Subset.refl _, fun _ => Steady.refl _⟩
  | track account =>
    refine h.passed ?_
    simp only [Reader.react, Reader.track]
    split
    · exact Passed.refl r
    · exact ⟨rfl, List.Subset.refl _, List.Subset.refl _, fun _ => Steady.refl _⟩
  | answer account result => exact h.answer account result hheeds
  | reset => exact h.steady rfl (List.Subset.refl _) (List.Subset.refl _) fun hl => steady_reset hl
  | compose event =>
    cases event with
    | draft sequence payload => exact h.composer fun hl => steady_draft hl sequence payload
    | send sequence payload => exact h.send sequence payload
    | sendCheck sequence draftId => exact h.composer fun hl => steady_sendCheck hl sequence draftId
    | discard sequence draftId => exact h.composer fun hl => steady_discard hl sequence draftId
    | restoredRecords fresh => exact h.composer fun hl => steady_restoredRecords hl fresh
    | poll value account outcome | polled i outcome => exact h.passed (Passed.refl r)
    | timer i =>
      refine h.composer fun _ => ?_
      simp only [step]
      split
      · exact Steady.of_eq rfl rfl rfl
      · exact Steady.refl _
    | posted i result => exact h.posted hnoted i result hheeds
    | status i result => exact h.status hnoted i result
    | reset | restart => exact h.passed (Passed.refl r)

/-- **No event is lost.** In every run from a start of the phone, with whatever it has stored, in
which some callback hands every answer on and the answers to POSTs come in time, every event that
was returned has been applied to each entry of its operation, unless the entry was terminal or had a
status request under way since. -/
theorem nothing_lost_of_run (sends : List Stored) (counter : ℕ) {events : List (Env × ReaderEvent)}
    {r : Reader}
    (hrun : Run (Within Heeds fun r e r' => r.step e = r') { compose := { sends, counter } } events r)
    {event : Operation} (hevent : event ∈ r.returned) {ref : ℕ} (href : ref ∈ r.compose.entries)
    (hconcerns : r.compose.concerns event ref = true) :
    (ref, event) ∈ r.applied ∨ (ref, event) ∈ r.excused := by
  have hinv : NothingLost r ∧ Noted r := by
    refine hrun.invariant (fun r => NothingLost r ∧ Noted r) ?_ ⟨⟨by simp, by simp⟩, by simp [Noted]⟩
    rintro r e _ ⟨h, hnoted⟩ ⟨hheeds, rfl⟩
    exact nothingLost_step h hnoted e hheeds
  exact hinv.1.applied event hevent ref href hconcerns

/-! A send of the draft of the samples, whose event comes with the answer to an EVENTS request. -/

def sampleDone : Operation := { operationId := some [111], state := some .sent }

def sampleEvents : Env × ReaderEvent := (Sample.env 0, .events Sample.account)

def sampleUpdates (events : List Operation) : Env × ReaderEvent :=
  (Sample.env 0, .answer Sample.account (.ok (some [99]) events))

def sampleSent : List (Env × ReaderEvent) :=
  [sampleEvents, sampleUpdates [], (Sample.env 0, .compose Sample.draft),
    (Sample.env 0, .compose (Sample.send 1 0))]

def samplePosted : Env × ReaderEvent :=
  (Sample.env 0, .compose (.posted 0 (Sample.operation .pending)))

theorem nothing_lost_of_run_sent :
    let r := (sampleSent ++ [samplePosted, sampleEvents, sampleUpdates [sampleDone]]).foldl
      Reader.step {}
    sampleDone ∈ r.returned ∧ 0 ∈ r.compose.entries ∧ r.compose.concerns sampleDone 0 = true ∧
      ((0, sampleDone) ∈ r.applied ∨ (0, sampleDone) ∈ r.excused) := by
  have hanswer : ∀ (r : Reader) (events : List Operation) (slot : ℕ),
      (r.updates.waiting Sample.account).map Batch.callbacks =
        some [.events slot Sample.settings] → r.slot = some slot →
      Heeds r (sampleUpdates events) := by
    intro r events slot hwaiting hslot batch hbatch
    rw [hbatch] at hwaiting
    refine Or.inl ⟨.events slot Sample.settings, ?_, ?_⟩
    · rw [Option.some.inj hwaiting]
      exact List.mem_singleton_self _
    · simp [Reader.hears, hslot]
  have hposted : Heeds (sampleSent.foldl Reader.step {}) samplePosted := by
    intro dispatch _ id _
    exact Or.inr (Or.inl fun event hevent => absurd hevent List.not_mem_nil)
  have hrun : Run (Within Heeds fun r e r' => r.step e = r')
      { compose := { sends := [], counter := 0 } }
      (sampleSent ++ [samplePosted, sampleEvents, sampleUpdates [sampleDone]])
      ((sampleSent ++ [samplePosted, sampleEvents, sampleUpdates [sampleDone]]).foldl
        Reader.step {}) :=
    (((((((Run.nil _).snoc ⟨trivial, rfl⟩).snoc ⟨hanswer _ [] 0 rfl rfl, rfl⟩).snoc
      ⟨trivial, rfl⟩).snoc ⟨trivial, rfl⟩).snoc ⟨hposted, rfl⟩).snoc ⟨trivial, rfl⟩).snoc
      ⟨hanswer _ [sampleDone] 1 rfl rfl, rfl⟩
  refine ⟨by decide, by decide, by decide, ?_⟩
  exact nothing_lost_of_run [] 0 hrun (by decide) (by decide) (by decide)

/-- **An event that is lost**: the reader is reset, with the settings it had, while an EVENTS request
is under way; the answer moves the cursor, and its event is dropped. -/
theorem event_lost_after_reset :
    let r := (sampleSent ++ [samplePosted, sampleEvents, (Sample.env 0, .reset),
      sampleUpdates [sampleDone]]).foldl Reader.step {}
    sampleDone ∈ r.returned ∧ r.updates.cursors Sample.account = some [99] ∧
      r.compose.tasks = [] ∧ r.updates.waiting Sample.account = none ∧
      0 ∈ r.compose.entries ∧ r.compose.concerns sampleDone 0 = true ∧
      (r.compose.heap 0).state = .pending ∧
      (0, sampleDone) ∉ r.applied ∧ (0, sampleDone) ∉ r.excused := by
  decide

/-- An event that comes before the answer to the POST is lost too. -/
example :
    let r := (sampleSent ++ [sampleEvents, sampleUpdates [sampleDone], samplePosted]).foldl
      Reader.step {}
    sampleDone ∈ r.returned ∧ r.compose.concerns sampleDone 0 = true ∧
      (r.compose.heap 0).state = .pending ∧
      (0, sampleDone) ∉ r.applied ∧ (0, sampleDone) ∉ r.excused := by
  decide

end Phone
