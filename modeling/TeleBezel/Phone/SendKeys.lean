import TeleBezel.Phone.SendStorage

/-!
# One key for every attempt

Every POST for an attempt, whichever request, check or timer it comes from and on whichever side of
a restart, has the key of the one entry of that attempt, for as long as that entry exists.
-/

open List

namespace Phone

open Transition

/-- The entry of an attempt of a draft: in memory, or in storage as long as `load` has not been
called. -/
def entryOf (c : Compose) (draftId attempt : ℕ) : Option Identity :=
  if c.loaded then (c.slot draftId attempt).map fun ref => (c.heap ref).toIdentity
  else (c.sends.find? fun stored => stored.draftId = draftId ∧ stored.attempt = attempt).map
    Stored.toIdentity

section EntryOf

variable {x : Option ℕ} {c c' : Compose} {env : Env} {draftId attempt : ℕ} {identity : Identity}

theorem entryOf_of_loaded (h : Indexed x c) (hloaded : c.loaded = true) :
    entryOf c draftId attempt = some identity ↔
      ∃ ref ∈ c.entries, (c.heap ref).toIdentity = identity ∧ identity.draftId = draftId ∧
        identity.attempt = attempt := by
  rw [entryOf, if_pos hloaded, Option.map_eq_some_iff]
  constructor
  · rintro ⟨ref, hslot, rfl⟩
    obtain ⟨hmem, hdraft, hattempt⟩ := h.found draftId attempt ref hslot
    exact ⟨ref, hmem, rfl, hdraft, hattempt⟩
  · rintro ⟨ref, hmem, rfl, rfl, rfl⟩
    exact ⟨ref, h.filed ref hmem, rfl⟩

theorem entryOf_of_unloaded (h : Indexed x c) (hloaded : c.loaded = false) :
    entryOf c draftId attempt = some identity ↔
      ∃ stored ∈ c.sends, stored.toIdentity = identity ∧ identity.draftId = draftId ∧
        identity.attempt = attempt := by
  rw [entryOf, if_neg (by simp [hloaded]), Option.map_eq_some_iff]
  constructor
  · rintro ⟨stored, hfind, rfl⟩
    have hpair := List.find?_some hfind
    rw [decide_eq_true_eq] at hpair
    exact ⟨stored, mem_of_find?_eq_some hfind, rfl, hpair⟩
  · rintro ⟨stored, hmem, rfl, hdraft, hattempt⟩
    -- any stored entry of the attempt that is found is this one
    cases hfind : c.sends.find? fun stored => stored.draftId = draftId ∧ stored.attempt = attempt with
    | none =>
      have hnone := List.find?_eq_none.1 hfind stored hmem
      rw [decide_eq_true_eq] at hnone
      exact absurd ⟨hdraft, hattempt⟩ hnone
    | some other =>
      have hpair := List.find?_some hfind
      rw [decide_eq_true_eq] at hpair
      have hsymm : Std.Symm fun s t : Stored =>
          ¬ (s.draftId = t.draftId ∧ s.attempt = t.attempt) :=
        ⟨fun _ _ hst hts => hst ⟨hts.1.symm, hts.2.symm⟩⟩
      refine ⟨other, rfl, by_contra fun hne => ?_⟩
      exact h.sends.forall (mem_of_find?_eq_some hfind) hmem (fun heq => hne (by rw [heq]))
        ⟨hpair.1.trans hdraft.symm, hpair.2.trans hattempt.symm⟩

theorem entryOf_load (h : Consistent env x [] c) (hstorage : env.storage = true) :
    entryOf (c.load env) draftId attempt = entryOf c draftId attempt := by
  cases hloaded : c.loaded with
  | true => rw [Compose.load, if_pos hloaded]
  | false =>
    obtain ⟨heq, hall, hsends, hloaded', horigin⟩ := h.loadAll hstorage hloaded
    have hpersist := (hall.persist hstorage).indexed
    refine Option.ext fun identity => ?_
    rw [heq]
    refine (entryOf_of_loaded hpersist hloaded').trans
      (Iff.trans ?_ (entryOf_of_unloaded h.indexed hloaded).symm)
    constructor
    · rintro ⟨ref, hmem, rfl, hpair⟩
      obtain ⟨stored, hstored, hsame⟩ := horigin ref hmem
      exact ⟨stored, hstored, hsame, hpair⟩
    · rintro ⟨stored, hstored, rfl, hpair⟩
      rw [← hsends] at hstored
      rcases hall.archived.archive hloaded' stored hstored with hnil | ⟨ref, hmem, hsame⟩
      · cases hnil
      · exact ⟨ref, hmem, hsame, hpair⟩

theorem entryOf_congr (h : Alike c c') (hdrafts : c'.drafts = c.drafts) :
    entryOf c' draftId attempt = entryOf c draftId attempt := by
  have hslot : c'.slot draftId attempt = c.slot draftId attempt := by
    rw [Compose.slot, Compose.slot, hdrafts]
  rw [entryOf, entryOf, h.loaded, h.sends, hslot]
  simp only [h.heap]

end EntryOf

/-- What an event has done since it found the composer `first`: its POSTs are of entries that are
there, and no attempt has got another entry. -/
structure Since (first c : Compose) : Prop where
  posts : first.posts <+: c.posts
  made : ∀ post ∈ c.posts.drop first.posts.length, ∃ ref ∈ c.entries,
    (c.heap ref).toIdentity = post.toIdentity
  stable : ∀ draftId attempt before after, entryOf first draftId attempt = some before →
    entryOf c draftId attempt = some after → after = before

namespace Since

variable {first c c' : Compose} {env : Env} {x : Option ℕ}

section

variable (h : Since first c)
include h

theorem congr (halike : Alike c c') (hdrafts : c'.drafts = c.drafts) :
    Since first c' where
  posts := by rw [halike.posts]; exact h.posts
  made := by
    rw [halike.posts, halike.entries]
    simp only [halike.heap]
    exact h.made
  stable draftId attempt before after hbefore hafter := by
    rw [entryOf_congr halike hdrafts] at hafter
    exact h.stable draftId attempt before after hbefore hafter

theorem persist (hindexed : Indexed x c) (hstorage : env.storage = true) :
    Since first (c.persist env) := by
  refine ⟨h.posts, h.made, fun draftId attempt before after hbefore hafter => ?_⟩
  cases hloaded : c.loaded with
  | true =>
    refine h.stable draftId attempt before after hbefore ?_
    rw [entryOf, if_pos hloaded]
    rw [entryOf, if_pos (by exact hloaded)] at hafter
    exact hafter
  | false =>
    -- nothing is stored before anything is loaded
    rw [entryOf, if_neg (by simp [hloaded]), Compose.persist_sends, if_pos hstorage,
      (hindexed.unloaded hloaded).1] at hafter
    cases hafter

theorem load (hc : Consistent env x [] c) (hstorage : env.storage = true) :
    Since first (c.load env) := by
  cases hloaded : c.loaded with
  | true =>
    rw [Compose.load, if_pos hloaded]
    exact h
  | false =>
    have hempty := (hc.indexed.unloaded hloaded).1
    refine ⟨?_, fun post hpost => ?_, fun draftId attempt before after hbefore hafter => ?_⟩
    · rw [(load_kept c env).2.2]
      exact h.posts
    · rw [(load_kept c env).2.2] at hpost
      obtain ⟨ref, hmem, -⟩ := h.made post hpost
      rw [hempty] at hmem
      cases hmem
    · rw [entryOf_load hc hstorage] at hafter
      exact h.stable draftId attempt before after hbefore hafter

theorem post {dispatch : Dispatch} (hmem : dispatch.ref ∈ c.entries) :
    Since first (c.post dispatch) := by
  refine ⟨h.posts.trans (prefix_append ..), fun post hpost => ?_, h.stable⟩
  rw [Compose.post_posts, drop_append, mem_append] at hpost
  rcases hpost with hold | hnew
  · exact h.made post hold
  · rw [mem_singleton.1 (mem_of_mem_drop hnew)]
    exact ⟨dispatch.ref, hmem, rfl⟩

theorem enter (hc : Consistent env none [] c) (hc' : c = first.load env)
    (hfirst : Consistent env none [] first) (hstorage : env.storage = true) {found : Draft}
    {attempt : ℕ} (sequence : ℕ) (value : Settings) (hfound : c.drafts found.id = some found)
    (hnone : found.attempts attempt = none) :
    Since first (c.enter env found attempt sequence value) := by
  have hloaded : c.loaded = true := by rw [hc', loaded_load]
  have hold : ∀ ref ∈ c.entries, (c.enter env found attempt sequence value).heap ref =
      c.heap ref := fun ref hmem => Function.update_of_ne (hc.sound.live ref hmem).ne ..
  refine ⟨h.posts, fun post hpost => ?_, fun d a before after hbefore hafter => ?_⟩
  · obtain ⟨ref, hmem, hsame⟩ := h.made post hpost
    exact ⟨ref, mem_append_left _ hmem, by rw [hold ref hmem]; exact hsame⟩
  · rw [entryOf, if_pos (by exact hloaded), Option.map_eq_some_iff] at hafter
    obtain ⟨ref, hslot, rfl⟩ := hafter
    have hslot' : (c.add env found attempt sequence value).slot d a = some ref := hslot
    rw [slot_add hfound] at hslot'
    split_ifs at hslot' with hpair
    · -- the attempt had no entry, neither now nor before `load`
      rw [hpair.1, hpair.2, ← entryOf_load hfirst hstorage, ← hc', entryOf, if_pos hloaded,
        Compose.slot, hfound, Option.bind_some, hnone] at hbefore
      cases hbefore
    · refine h.stable d a before _ hbefore ?_
      obtain ⟨hmem, -⟩ := hc.indexed.found d a ref hslot'
      rw [entryOf, if_pos hloaded, hslot', hold ref hmem]
      rfl

end

theorem finish_slots (env : Env) (c : Compose) (dispatch : Dispatch)
    (code : Option ResultCode) :
    (c.finish env dispatch code).posts = c.posts ∧
      (c.finish env dispatch code).loaded = c.loaded ∧
      ∀ d a ref, (c.finish env dispatch code).slot d a = some ref → c.slot d a = some ref := by
  unfold Compose.finish
  split
  · refine ⟨rfl, rfl, fun d a ref hslot => ?_⟩
    exact Sound.slot_of_slot_forget (c := c.dropWaiters dispatch.ref) hslot
  · exact ⟨rfl, rfl, fun d a ref hslot => hslot⟩
  · next next _ =>
    have halike := alike_checked env (c.persist env) dispatch.ref next
    refine ⟨halike.posts, halike.loaded, fun d a ref hslot => ?_⟩
    have hdrafts : ((c.persist env).checked env dispatch.ref next).drafts = c.drafts := by
      cases next <;> simp only [Compose.checked] <;> split <;> rfl
    rwa [Compose.slot, hdrafts] at hslot

theorem answerPost_slots (env : Env) (c : Compose) (dispatch : Dispatch)
    (result : ApiResult) :
    (c.answerPost env dispatch result).posts = c.posts ∧
      (c.answerPost env dispatch result).loaded = c.loaded ∧
      ∀ d a ref, (c.answerPost env dispatch result).slot d a = some ref →
        c.slot d a = some ref := by
  cases result with
  | ok operation =>
    have h := finish_slots env (c.receiveAnswer dispatch.ref operation) dispatch none
    cases operation <;> exact h
  | error status code retryAfter =>
    simp only [Compose.answerPost, Compose.lostPost, Compose.refusedPost]
    split
    · split
      · exact ⟨rfl, rfl, fun d a ref hslot => hslot⟩
      · exact finish_slots ..
    · split
      · exact finish_slots ..
      · exact finish_slots ..

theorem posted (hsound : Sound none first) (hfirst : Indexed none first) {i : ℕ}
    {dispatch : Dispatch} {result : ApiResult}
    (htask : first.tasks[i]? = some (.post dispatch)) :
    Since first ((first.take i).answerPost env dispatch result) := by
  have hloaded : first.loaded = true := by
    by_contra hfalse
    have hmem := hfirst.tasks _ (mem_of_getElem? htask)
    rw [(hfirst.unloaded (by simpa using hfalse)).1] at hmem
    cases hmem
  obtain ⟨hposts, hloaded', hslots⟩ := answerPost_slots env (first.take i) dispatch result
  have hstep : (first.take i).answerPost env dispatch result =
      first.step (env, .posted i result) := by
    simp only [Compose.step, htask]
  refine ⟨by rw [hposts]; exact prefix_rfl, fun post hpost => ?_,
    fun d a before after hbefore hafter => ?_⟩
  · rw [hposts, Compose.take_posts, drop_length] at hpost
    cases hpost
  · rw [entryOf, if_pos (hloaded'.trans hloaded), Option.map_eq_some_iff] at hafter
    obtain ⟨ref, hslot, rfl⟩ := hafter
    have hslot' : first.slot d a = some ref := hslots d a ref hslot
    rw [entryOf, if_pos hloaded, hslot', Option.map_some, Option.some_inj] at hbefore
    rw [hstep, toIdentity_step first _ (hsound.slots d a ref hslot')]
    exact hbefore

end Since

theorem closed_since {first : Compose} {e : Env × Event} (he : Allowed first e)
    (hfirst : Consistent e.1 none [] first) (hrestart : e.2 ≠ .restart) :
    ClosedOver first e (fun x c => Consistent e.1 x [] c) fun _ c => Since first c := by
  have hnot : ∀ {p : Prop}, ¬ Ordinary first e → p := fun hne =>
    absurd (ordinary_of_allowed he hfirst) hne
  exact
    { say := fun _ _ h => h.congr (alike_of_eq rfl) rfl
      persist := fun hc h => h.persist hc.indexed he.1
      load := fun hc h => h.load hc he.1
      track := fun ref _ h => h.congr (alike_modify _ ref _ rfl) rfl
      setChecking := fun ref _ _ h => h.congr (alike_modify _ ref _ rfl) rfl
      join := fun _ _ h _ _ => h.congr (alike_modify _ _ _ rfl) rfl
      receive := fun operation _ h _ _ => h.congr (alike_receive _ _ operation) rfl
      status := fun _ _ h _ _ _ => h.congr (alike_of_eq rfl) rfl
      checkDispatch := fun _ _ hc h hfiled _ _ _ => by
        obtain ⟨d, a, hslot⟩ := hfiled
        exact h.post (hc.indexed.found d a _ hslot).1
      enter := fun {c draftId found attempt} sequence value hload hc h _ hfound hnone _ _ => by
        obtain rfl : found.id = draftId := hc.indexed.ids draftId found hfound
        exact h.enter hc hload hfirst he.1 sequence value hfound hnone
      sendDispatch := fun _ hc h => h.post (hc.indexed.running _ rfl)
      wait := fun _ _ h => h.congr (alike_of_eq rfl) rfl
      addDraft := fun {c} sequence payload text hload _ h hdraft _ => by
        have hnone : c.drafts (c.nextDraftId e.1) = none := by
          have hordinary := ordinary_of_allowed he hfirst
          rw [Ordinary, hdraft] at hordinary
          rw [hload]
          exact hordinary
        refine ⟨h.posts, h.made, fun d a before after hbefore hafter => ?_⟩
        refine h.stable d a before after hbefore ?_
        have hslot : (c.addDraft e.1 sequence payload text).slot d a = c.slot d a := by
          simp only [Compose.slot, Compose.addDraft, Compose.respond_drafts, Function.update_apply]
          split_ifs with hd
          · rw [hd, hnone]
            rfl
          · rfl
        rw [entryOf, hslot] at hafter
        exact hafter
      polled := fun _ h _ => h.congr (alike_of_eq rfl) rfl
      timer := fun {c i dispatch} hc h htask => by
        have htake : Since first (c.take i) := h.congr (alike_of_eq rfl) rfl
        exact htake.post (hc.indexed.tasks _ (mem_of_getElem? htask))
      readStatus := fun {c i ref next} result _ h _ => by
        have halike : Alike c (c.take i) := alike_of_eq rfl
        cases result with
        | ok operation =>
          refine h.congr (halike.trans (alike_receiveAnswer _ ref operation)) ?_
          cases operation <;> rfl
        | error status code retryAfter =>
          simp only [Compose.readStatus]
          split
          · exact h.congr (halike.trans (alike_modify _ ref _ rfl)) rfl
          · exact h.congr halike rfl
      posted := fun _ _ _ htask => Since.posted hfirst.sound hfirst.indexed htask
      discardEntry := fun _ _ _ hdiscard _ _ => hnot (by simp [Ordinary, hdiscard])
      dropDraft := fun _ _ hdiscard _ _ => hnot (by simp [Ordinary, hdiscard])
      clear := fun hreset _ _ => hnot (by simp [Ordinary, hreset])
      restart := fun hevent _ _ => absurd hevent hrestart }

structure Kept (c : Compose) : Prop where
  sound : Sound none c
  indexed : Indexed none c
  keyed : Keyed c
  archived : Archived [] c

theorem Kept.restart {c : Compose} (h : Kept c) : Kept c.restart ∧ Since c c.restart := by
  refine ⟨⟨?_, ?_, ?_, ?_⟩, prefix_rfl, fun post hpost => ?_,
    fun d a before after hbefore hafter => ?_⟩
  · exact ⟨nofun, nofun, nofun, nofun, List.Pairwise.nil, nofun⟩
  · exact ⟨nodup_nil, nofun, nofun, nofun, nofun, nofun, h.indexed.sends,
      fun _ => ⟨rfl, fun _ => rfl⟩⟩
  · exact ⟨nofun, nofun, nofun, nofun, h.keyed.posts, nofun, h.keyed.first⟩
  · exact ⟨fun stored hstored => (h.archived.stored stored hstored).mono (fun _ => id)
      (fun _ => id) le_rfl, h.archived.keys, nofun, nofun⟩
  · rw [Compose.restart_posts, drop_length] at hpost
    cases hpost
  · cases hloaded : c.loaded with
    | true =>
      rw [entryOf, if_neg Bool.noConfusion, Option.map_eq_some_iff] at hafter
      obtain ⟨stored, hfind, rfl⟩ := hafter
      have hpair := List.find?_some hfind
      rw [decide_eq_true_eq] at hpair
      have hmem : stored ∈ c.sends := mem_of_find?_eq_some hfind
      rcases h.archived.archive hloaded stored hmem with hnil | ⟨ref, href, hsame⟩
      · cases hnil
      · have hentry : entryOf c d a = some stored.toIdentity :=
          (entryOf_of_loaded h.indexed hloaded).2 ⟨ref, href, hsame, hpair⟩
        exact Option.some.inj (hentry.symm.trans hbefore)
    | false =>
      have hentry : entryOf c.restart d a = entryOf c d a := by
        rw [entryOf, entryOf, hloaded]
        rfl
      exact Option.some.inj (hafter.symm.trans (hentry.trans hbefore))

/-- **One event** keeps the invariants, gives no attempt another entry, and posts only for entries
that are there. -/
theorem keyed_step {c : Compose} {e : Env × Event} (h : Kept c) (he : Allowed c e) :
    Kept (c.step e) ∧ Since c (c.step e) := by
  by_cases hrestart : e.2 = .restart
  · obtain ⟨env, event⟩ := e
    obtain rfl : event = .restart := hrestart
    exact h.restart
  · have hc : Consistent e.1 none [] c := ⟨h.sound, h.indexed, h.keyed, h.archived, he.2.1⟩
    have hsince : Since c c := ⟨prefix_rfl, by simp, fun _ _ _ _ hbefore hafter =>
      Option.some.inj (hafter.symm.trans hbefore)⟩
    obtain ⟨hstep, hsince'⟩ := ((closed_since he hc hrestart).and
      (closed_consistent he hc hrestart)).step ⟨hc, hsince⟩
    exact ⟨⟨hstep.sound, hstep.indexed, hstep.keyed, hstep.archived⟩, hsince'⟩

theorem kept_initial : Kept {} := by
  refine ⟨?_, ?_, ?_, ?_⟩
  · exact ⟨nofun, nofun, nofun, nofun, List.Pairwise.nil, nofun⟩
  · exact ⟨nodup_nil, nofun, nofun, nofun, nofun, nofun, List.Pairwise.nil,
      fun _ => ⟨rfl, fun _ => rfl⟩⟩
  · refine ⟨nofun, fun _ href => absurd href not_mem_nil, nofun,
      fun _ href => absurd href not_mem_nil, nofun, nofun, fun i post hpost => ?_⟩
    rw [List.getElem?_nil] at hpost
    cases hpost
  · exact ⟨fun _ hstored => absurd hstored not_mem_nil, List.Pairwise.nil, nofun, nofun⟩

theorem kept_run {c c' : Compose} {es : List (Env × Event)} (h : Kept c)
    (hrun : Run (Within Allowed fun c e c' => c.step e = c') c es c') : Kept c' := by
  refine hrun.invariant Kept ?_ h
  rintro c e _ hc ⟨he, rfl⟩
  exact (keyed_step hc he).1

theorem key_of_stretch {c c' : Compose} {draftId attempt : ℕ} {es : List (Env × Event)} (h : Kept c)
    (hrun : Run (Keeping (fun c' => (entryOf c' draftId attempt).isSome)
      (Within Allowed fun c e c' => c.step e = c')) c es c') :
    ∀ post ∈ c'.posts.drop c.posts.length, post.draftId = draftId → post.attempt = attempt →
      (entryOf c' draftId attempt).map Identity.key = some post.key := by
  have hinv := hrun.invariant (fun c' => Kept c' ∧ c.posts.length ≤ c'.posts.length ∧
    ∀ post ∈ c'.posts.drop c.posts.length, post.draftId = draftId → post.attempt = attempt →
      (entryOf c' draftId attempt).map Identity.key = some post.key) ?_ ⟨h, le_rfl, by simp⟩
  · exact hinv.2.2
  rintro c₁ e _ ⟨hkept, hle, hold⟩ ⟨⟨he, rfl⟩, hsome⟩
  obtain ⟨hkept', hsince⟩ := keyed_step hkept he
  obtain ⟨new, hnew⟩ := hsince.posts
  obtain ⟨after, hafter⟩ := Option.isSome_iff_exists.1 hsome
  refine ⟨hkept', hle.trans (by rw [← hnew]; simp), fun post hpost hdraft hattempt => ?_⟩
  rw [← hnew, drop_append_of_le_length hle, mem_append] at hpost
  rcases hpost with hin | hin
  · -- an earlier POST: the attempt has the entry it had
    obtain ⟨before, hbefore, hkey⟩ := Option.map_eq_some_iff.1 (hold post hin hdraft hattempt)
    rw [hafter, hsince.stable _ _ before after hbefore hafter, Option.map_some, hkey]
  · -- a POST of this event: its entry is the one of the attempt
    have hmade := hsince.made post (by rw [← hnew, drop_left]; exact hin)
    obtain ⟨ref, hmem, hsame⟩ := hmade
    have hloaded : (c₁.step e).loaded = true := by
      by_contra hfalse
      rw [(hkept'.indexed.unloaded (by simpa using hfalse)).1] at hmem
      cases hmem
    have hentry : entryOf (c₁.step e) draftId attempt = some post.toIdentity :=
      (entryOf_of_loaded hkept'.indexed hloaded).2 ⟨ref, hmem, hsame, hdraft, hattempt⟩
    rw [hentry]
    rfl

/-- **One key for an attempt.** In every run from a fresh phone, with drafts, sends, checks, polls,
timers, answers and restarts in any order:

* the first POST under a key finds the key, the text and the message replied to in storage;
* no two entries share a key, in memory or in storage;
* at most one entry is dispatching;
* on any further stretch on which the entry of an attempt exists, all POSTs for the attempt have
  one key, that of the entry. -/
theorem one_key_of_run {c : Compose} {es : List (Env × Event)}
    (hrun : Run (Within Allowed fun c e c' => c.step e = c') {} es c) :
    (∀ i post, c.posts[i]? = some post → (∀ earlier ∈ c.posts.take i, earlier.key ≠ post.key) →
        ∃ stored ∈ post.sends, stored.key = post.key ∧ stored.text = post.text ∧
          stored.reply = post.reply) ∧
      (∀ ref ∈ c.entries, ∀ other ∈ c.entries, (c.heap ref).key = (c.heap other).key →
        ref = other) ∧
      (c.sends.Pairwise fun s t => s.key ≠ t.key) ∧
      (∀ ref ∈ c.entries, ∀ other ∈ c.entries, (c.heap ref).state = .dispatching →
        (c.heap other).state = .dispatching → ref = other) ∧
      ∀ draftId attempt es' c', Run (Keeping (fun c' => (entryOf c' draftId attempt).isSome)
          (Within Allowed fun c e c' => c.step e = c')) c es' c' →
        ∀ post ∈ c'.posts.drop c.posts.length, post.draftId = draftId → post.attempt = attempt →
          (entryOf c' draftId attempt).map Identity.key = some post.key := by
  have h := kept_run kept_initial hrun
  refine ⟨fun i post hpost hfirst => ?_, h.keyed.inj, h.archived.keys, h.keyed.one,
    fun draftId attempt es' c' hstretch => key_of_stretch h hstretch⟩
  obtain ⟨stored, hmem, hsame⟩ := h.keyed.first i post hpost hfirst
  exact ⟨stored, hmem, congrArg Identity.key hsame, congrArg Identity.text hsame,
    congrArg Identity.reply hsame⟩

def cutOff : List (Env × Event) :=
  [(Sample.env 1000, Sample.draft), (Sample.env 2000, Sample.send 2 0),
   (Sample.env 3000, .restart)]

/-- After `cutOff` a check posts once more, under the key that was stored. -/
theorem one_key_of_run_cutOff :
    let c := cutOff.foldl Compose.step {}
    let c' := c.step (Sample.env 4000, .sendCheck 3 1)
    c'.posts.length = 2 ∧ entryOf c 1 0 = entryOf c' 1 0 ∧
      ∀ post ∈ c'.posts.drop 1, post.draftId = 1 → post.attempt = 0 →
        (entryOf c' 1 0).map Identity.key = some post.key := by
  intro c c'
  have hdraft : Allowed {} (Sample.env 1000, Sample.draft) :=
    ⟨rfl, ⟨by decide, by decide⟩, (by decide : 0 < 0xFFFFFFF0)⟩
  have hsend : Allowed (Compose.step {} (Sample.env 1000, Sample.draft))
      (Sample.env 2000, Sample.send 2 0) :=
    ⟨rfl, ⟨by decide, by decide⟩, (List.not_mem_nil : newKey 2000 [] ∉ [])⟩
  have hrun : Run (Within Allowed fun c e c' => c.step e = c') {} cutOff c :=
    (((Run.nil _).snoc ⟨hdraft, rfl⟩).snoc ⟨hsend, rfl⟩).snoc
      ⟨⟨rfl, ⟨by decide, by decide⟩, trivial⟩, rfl⟩
  have hstretch : Run (Keeping (fun c' => (entryOf c' 1 0).isSome)
      (Within Allowed fun c e c' => c.step e = c')) c [(Sample.env 4000, .sendCheck 3 1)] c' :=
    (Run.nil _).snoc ⟨⟨⟨rfl, ⟨by decide, by decide⟩, trivial⟩, rfl⟩, by decide⟩
  exact ⟨by decide, by decide, (one_key_of_run hrun).2.2.2.2 1 0 _ c' hstretch⟩

end Phone
