import Mathlib.Data.List.Pairwise
import TeleBezel.Phone.SendIndex

/-!
# The entries and what is stored of them

The key of an entry is made with the entry, and the entry is stored with its key, its text and the
message it replies to before anything is posted. Storage never holds an entry that memory has not,
and it holds every entry that was not posted yet, so a restart finds them.
-/

open List

namespace Phone

open Transition Compose Function

def Posted (c : Compose) (key : JsString) : Prop := ∃ post ∈ c.posts, post.key = key

instance (c : Compose) (key : JsString) : Decidable (Posted c key) :=
  inferInstanceAs (Decidable (∃ post ∈ c.posts, post.key = key))

def Task.asked : Task → Bool
  | .poll _ _ => false
  | _ => true

/-- An entry in memory: its key was made, its target is well formed, and it has an operation or is
sent only if it was posted. -/
structure Good (c : Compose) (entry : Entry) : Prop where
  key : entry.key ∈ c.keys
  kept : entry.discarded = false
  account : accountPattern entry.account
  chat : chatPattern entry.chat
  answered : entry.known ∨ entry.state = .sent → Posted c entry.key

structure GoodStored (c : Compose) (stored : Stored) : Prop where
  key : stored.key ∈ c.keys
  unsent : stored.state ≠ .sent
  account : accountPattern stored.account
  chat : chatPattern stored.chat
  draft : stored.draftId ≤ c.counter
  answered : (stored.operationId.any fun id => id ≠ []) → Posted c stored.key

def FirstStored (posts : List Post) : Prop :=
  ∀ i post, posts[i]? = some post → (∀ earlier ∈ posts.take i, earlier.key ≠ post.key) →
    ∃ stored ∈ post.sends, stored.toIdentity = post.toIdentity

structure Keyed (c : Compose) : Prop where
  good : ∀ ref ∈ c.entries, Good c (c.heap ref)
  inj : ∀ ref ∈ c.entries, ∀ other ∈ c.entries, (c.heap ref).key = (c.heap other).key → ref = other
  drafts : ∀ draftId draft, c.drafts draftId = some draft →
    draftId ≤ c.counter ∧ accountPattern draft.account ∧ chatPattern draft.chat
  one : ∀ ref ∈ c.entries, ∀ other ∈ c.entries, (c.heap ref).state = .dispatching →
    (c.heap other).state = .dispatching → ref = other
  posts : ∀ post ∈ c.posts, post.key ∈ c.keys
  tasks : ∀ task ∈ c.tasks, task.asked → Posted c (c.heap task.ref).key
  first : FirstStored c.posts

/-- What holds of storage, with the stored entries `rest` still to be restored: it has no entry
that memory has not, and every entry that was not posted yet. -/
structure Archived (rest : List Stored) (c : Compose) : Prop where
  stored : ∀ stored ∈ c.sends, GoodStored c stored
  keys : c.sends.Pairwise fun s t => s.key ≠ t.key
  archive : c.loaded = true → ∀ stored ∈ c.sends, stored ∈ rest ∨
    ∃ ref ∈ c.entries, (c.heap ref).toIdentity = stored.toIdentity
  unposted : ∀ ref ∈ c.entries, ¬ Posted c (c.heap ref).key →
    ∃ stored ∈ c.sends, stored.toIdentity = (c.heap ref).toIdentity

/-- The clock is within the time an entry is kept, as long as that is needed: until its first POST
is made, and when `load` restores it; and the settings are those it was made with. -/
structure Timely (env : Env) (c : Compose) : Prop where
  stored : c.loaded = false → ∀ stored ∈ c.sends,
    some stored.fingerprint = env.settings.map fingerprint ∧ env.now - stored.created < entryTtlMs
  unposted : ∀ ref ∈ c.entries, ¬ Posted c (c.heap ref).key →
    env.now - (c.heap ref).created < entryTtlMs

section Monotone

variable {c c' : Compose}

theorem Posted.mono {key : JsString} (h : Posted c key) (hposts : c.posts ⊆ c'.posts) :
    Posted c' key := by
  obtain ⟨post, hpost, hkey⟩ := h
  exact ⟨post, hposts hpost, hkey⟩

theorem Good.mono {entry : Entry} (h : Good c entry) (hkeys : c.keys ⊆ c'.keys)
    (hposts : c.posts ⊆ c'.posts) : Good c' entry :=
  { h with key := hkeys h.key, answered := fun ha => (h.answered ha).mono hposts }

theorem GoodStored.mono {stored : Stored} (h : GoodStored c stored) (hkeys : c.keys ⊆ c'.keys)
    (hposts : c.posts ⊆ c'.posts) (hcounter : c.counter ≤ c'.counter) : GoodStored c' stored :=
  { h with
    key := hkeys h.key
    draft := h.draft.trans hcounter
    answered := fun ha => (h.answered ha).mono hposts }

theorem firstStored_snoc {posts : List Post} {post : Post} (h : FirstStored posts)
    (hpost : (∀ earlier ∈ posts, earlier.key ≠ post.key) →
      ∃ stored ∈ post.sends, stored.toIdentity = post.toIdentity) :
    FirstStored (posts ++ [post]) := by
  intro i other hother hfirst
  rcases lt_trichotomy i posts.length with hlt | rfl | hgt
  · rw [List.getElem?_append_left hlt] at hother
    rw [take_append_of_le_length hlt.le] at hfirst
    exact h i other hother hfirst
  · rw [List.getElem?_append_right le_rfl, Nat.sub_self] at hother
    obtain rfl : post = other := Option.some.inj hother
    rw [take_left] at hfirst
    exact hpost hfirst
  · rw [List.getElem?_eq_none (by simp; omega)] at hother
    cases hother

end Monotone

namespace Keyed

variable {c c' : Compose} {env : Env} {ref : ℕ}

theorem congr (h : Keyed c)
    (hview : (c'.heap, c'.entries, c'.drafts, c'.tasks, c'.counter, c'.keys, c'.posts) =
      (c.heap, c.entries, c.drafts, c.tasks, c.counter, c.keys, c.posts)) : Keyed c' := by
  simp only [Prod.mk.injEq] at hview
  obtain ⟨hheap, hentries, hdrafts, htasks, hcounter, hkeys, hposts⟩ := hview
  exact
    { good := by
        rw [hentries, hheap]
        exact fun ref hmem => (h.good ref hmem).mono (by rw [hkeys]; exact fun _ => id)
          (by rw [hposts]; exact fun _ => id)
      inj := by rw [hentries, hheap]; exact h.inj
      drafts := by rw [hdrafts, hcounter]; exact h.drafts
      one := by rw [hentries, hheap]; exact h.one
      posts := by rw [hposts, hkeys]; exact h.posts
      tasks := by
        rw [htasks, hheap]
        exact fun task htask hasked => (h.tasks task htask hasked).mono
          (by rw [hposts]; exact fun _ => id)
      first := by rw [hposts]; exact h.first }

theorem modify (h : Keyed c) (f : Entry → Entry)
    (hidentity : (f (c.heap ref)).toIdentity = (c.heap ref).toIdentity)
    (hkept : (f (c.heap ref)).discarded = (c.heap ref).discarded)
    (hstate : (f (c.heap ref)).state = .dispatching → (c.heap ref).state = .dispatching)
    (hanswered : (f (c.heap ref)).known ∨ (f (c.heap ref)).state = .sent →
      ((c.heap ref).known ∨ (c.heap ref).state = .sent) ∨ Posted c (c.heap ref).key) :
    Keyed (c.modify ref f) := by
  have hid : ∀ other, ((c.modify ref f).heap other).toIdentity = (c.heap other).toIdentity := by
    intro other
    rw [modify_heap, update_apply]
    split_ifs with heq
    · rw [hidentity, heq]
    · rfl
  have hkey : ∀ other, ((c.modify ref f).heap other).key = (c.heap other).key := fun other =>
    congrArg Identity.key (hid other)
  have hdispatching : ∀ other, ((c.modify ref f).heap other).state = .dispatching →
      (c.heap other).state = .dispatching := by
    intro other hs
    rw [modify_heap, update_apply] at hs
    split_ifs at hs with heq
    · rw [heq]
      exact hstate hs
    · exact hs
  refine ⟨fun other hmem => ?_, fun a ha b hb hab => ?_, h.drafts, fun a ha b hb hsa hsb => ?_,
    h.posts, fun task htask hasked => ?_, h.first⟩
  · by_cases heq : other = ref
    · subst heq
      have hgood := h.good other hmem
      have hnew : (c.modify other f).heap other = f (c.heap other) := update_self ..
      rw [hnew]
      have hsame : ∀ {α : Type} (field : Identity → α), field (f (c.heap other)).toIdentity =
          field (c.heap other).toIdentity := fun field => congrArg field hidentity
      refine ⟨?_, hkept.trans hgood.kept, ?_, ?_, fun ha => ?_⟩
      · rw [hsame Identity.key]
        exact hgood.key
      · rw [hsame Identity.account]
        exact hgood.account
      · rw [hsame Identity.chat]
        exact hgood.chat
      · rw [hsame Identity.key]
        exact (hanswered ha).elim hgood.answered id
    · have hold : (c.modify ref f).heap other = c.heap other := update_of_ne heq ..
      rw [hold]
      exact (h.good other hmem).mono (fun _ => id) (fun _ => id)
  · rw [hkey, hkey] at hab
    exact h.inj a ha b hb hab
  · exact h.one a ha b hb (hdispatching a hsa) (hdispatching b hsb)
  · rw [hkey]
    exact h.tasks task htask hasked

theorem touch (h : Keyed c) (f : Entry → Entry)
    (hf : (f (c.heap ref)).toStored = { (c.heap ref).toStored with
      tracked := (f (c.heap ref)).tracked }) (hkept : (f (c.heap ref)).discarded =
        (c.heap ref).discarded) : Keyed (c.modify ref f) := by
  have hoperation : (f (c.heap ref)).operationId = (c.heap ref).operationId := by rw [hf]
  have hstate : (f (c.heap ref)).state = (c.heap ref).state := by rw [hf]
  refine h.modify f (by rw [hf]) hkept (by rw [hstate]; exact id) fun ha => .inl ?_
  rwa [Entry.known, hoperation, hstate] at ha

theorem await (h : Keyed c) (task : Task)
    (hasked : task.asked → Posted c (c.heap task.ref).key) : Keyed (c.await task) := by
  refine { h with
    good := fun ref hmem => (h.good ref hmem).mono (fun _ => id) (fun _ => id)
    tasks := fun other hother ha => ?_ }
  rw [await_tasks, mem_append, mem_singleton] at hother
  rcases hother with hin | rfl
  · exact h.tasks other hin ha
  · exact hasked ha

theorem take (h : Keyed c) (i : ℕ) : Keyed (c.take i) :=
  { h with
    good := fun ref hmem => (h.good ref hmem).mono (fun _ => id) (fun _ => id)
    tasks := fun task htask => h.tasks task (mem_of_mem_eraseIdx htask) }

theorem post (h : Keyed c) {rest : List Stored} (harchived : Archived rest c)
    {dispatch : Dispatch} (hmem : dispatch.ref ∈ c.entries) : Keyed (c.post dispatch) := by
  have hposts : c.posts ⊆ (c.post dispatch).posts := subset_append_left ..
  have hposted : Posted (c.post dispatch) (c.heap dispatch.ref).key :=
    ⟨_, mem_append_right _ (mem_singleton_self _), rfl⟩
  refine ⟨fun ref href => (h.good ref href).mono (fun _ => id) hposts, h.inj, h.drafts, h.one,
    fun post hpost => ?_, fun task htask hasked => ?_, firstStored_snoc h.first fun hfirst => ?_⟩
  · rcases mem_append.1 hpost with hold | hnew
    · exact h.posts post hold
    · rw [mem_singleton.1 hnew]
      exact (h.good _ hmem).key
  · rcases mem_append.1 htask with hold | hnew
    · exact (h.tasks task hold hasked).mono hposts
    · rw [mem_singleton.1 hnew]
      exact hposted
  · refine harchived.unposted _ hmem ?_
    rintro ⟨post, hpost, hkey⟩
    exact hfirst post hpost hkey

theorem alloc {x : Option ℕ} (h : Keyed c) (hs : Sound x c) (entry : Entry)
    (hheap : c'.heap = update c.heap c.next entry)
    (hentries : c'.entries = c.entries ++ [c.next]) (htasks : c'.tasks = c.tasks)
    (hkeys : c.keys ⊆ c'.keys) (hposts : c'.posts = c.posts) (hgood : Good c' entry)
    (hkey : ∀ ref ∈ c.entries, (c.heap ref).key ≠ entry.key)
    (hone : entry.state = .dispatching → ∀ ref ∈ c.entries, (c.heap ref).state ≠ .dispatching)
    (hdrafts : ∀ draftId draft, c'.drafts draftId = some draft →
      draftId ≤ c'.counter ∧ accountPattern draft.account ∧ chatPattern draft.chat) :
    Keyed c' := by
  have hsub : c.posts ⊆ c'.posts := by rw [hposts]; exact fun _ => id
  have hold : ∀ ref < c.next, c'.heap ref = c.heap ref := fun ref hlt => by
    rw [hheap, update_of_ne hlt.ne]
  have hnew : c'.heap c.next = entry := by rw [hheap, update_self]
  have hmem : ∀ ref ∈ c'.entries, ref ∈ c.entries ∨ ref = c.next := by
    simp [hentries]
  refine ⟨fun ref href => ?_, fun a ha b hb hab => ?_, hdrafts, fun a ha b hb hsa hsb => ?_,
    fun post hpost => hkeys (h.posts post (by rwa [← hposts])), fun task htask hasked => ?_,
    by rw [hposts]; exact h.first⟩
  · rcases hmem ref href with hin | rfl
    · rw [hold ref (hs.live ref hin)]
      exact (h.good ref hin).mono hkeys hsub
    · rwa [hnew]
  · rcases hmem a ha with hina | rfl <;> rcases hmem b hb with hinb | rfl
    · rw [hold a (hs.live a hina), hold b (hs.live b hinb)] at hab
      exact h.inj a hina b hinb hab
    · rw [hold a (hs.live a hina), hnew] at hab
      exact absurd hab (hkey a hina)
    · rw [hold b (hs.live b hinb), hnew] at hab
      exact absurd hab.symm (hkey b hinb)
    · rfl
  · rcases hmem a ha with hina | rfl <;> rcases hmem b hb with hinb | rfl
    · rw [hold a (hs.live a hina)] at hsa
      rw [hold b (hs.live b hinb)] at hsb
      exact h.one a hina b hinb hsa hsb
    · rw [hold a (hs.live a hina)] at hsa
      rw [hnew] at hsb
      exact absurd hsa (hone hsb a hina)
    · rw [hold b (hs.live b hinb)] at hsb
      rw [hnew] at hsa
      exact absurd hsb (hone hsa b hinb)
    · rfl
  · rw [htasks] at htask
    rw [hold _ (hs.held task htask)]
    exact (h.tasks task htask hasked).mono hsub

theorem forget (h : Keyed c) (ref : ℕ) : Keyed (c.forget ref) where
  good other hother := (h.good other (mem_of_mem_filter hother)).mono (fun _ => id) fun _ => id
  inj a ha b hb := h.inj a (mem_of_mem_filter ha) b (mem_of_mem_filter hb)
  drafts draftId draft hdraft := by
    rw [forget_drafts] at hdraft
    cases hold : c.drafts (c.heap ref).draftId with
    | none =>
      rw [hold] at hdraft
      exact h.drafts draftId draft hdraft
    | some old =>
      rw [hold] at hdraft
      dsimp only at hdraft
      split_ifs at hdraft
      · rw [update_apply] at hdraft
        split_ifs at hdraft with hd
        · obtain rfl := Option.some.inj hdraft
          subst hd
          exact h.drafts _ old hold
        · exact h.drafts draftId draft hdraft
      · exact h.drafts draftId draft hdraft
  one a ha b hb := h.one a (mem_of_mem_filter ha) b (mem_of_mem_filter hb)
  posts := h.posts
  tasks := h.tasks
  first := h.first

end Keyed

theorem archived_persist {x : Option ℕ} {c : Compose} {env : Env} (hindexed : Indexed x c)
    (hkeyed : Keyed c) (htimely : Timely env c) (hstorage : env.storage = true) :
    Archived [] (c.persist env) := by
  have hsends : ∀ stored, stored ∈ (c.persist env).sends ↔
      ∃ ref ∈ c.entries, (c.heap ref).kept env.now ∧ (c.heap ref).stored = stored := by
    intro stored
    rw [persist_sends, if_pos hstorage]
    simp only [mem_map, mem_filter]
    constructor
    · rintro ⟨_, ⟨⟨ref, hmem, rfl⟩, hkept⟩, rfl⟩
      exact ⟨ref, hmem, hkept, rfl⟩
    · rintro ⟨ref, hmem, hkept, rfl⟩
      exact ⟨_, ⟨⟨ref, hmem, rfl⟩, hkept⟩, rfl⟩
  refine ⟨fun stored hstored => ?_, ?_, fun _ stored hstored => .inr ?_, fun ref hmem hnot => ?_⟩
  · obtain ⟨ref, hmem, hkept, rfl⟩ := (hsends stored).1 hstored
    have hgood := hkeyed.good ref hmem
    simp only [Entry.kept, Bool.and_eq_true, decide_eq_true_eq] at hkept
    refine ⟨hgood.key, hkept.1.1, hgood.account, hgood.chat, ?_, fun hknown => ?_⟩
    · obtain ⟨draft, hdraft, -⟩ := Option.bind_eq_some_iff.1 (hindexed.filed ref hmem)
      exact (hkeyed.drafts _ draft hdraft).1
    · refine hgood.answered (.inl ?_)
      simp only [Entry.stored] at hknown
      split at hknown
      · assumption
      · cases hknown
  · rw [persist_sends, if_pos hstorage]
    have hentries : (c.entries.map c.heap).Pairwise fun s t => s.key ≠ t.key := by
      refine pairwise_map.2 (List.Pairwise.imp_of_mem ?_ hindexed.nodup)
      exact fun href hother hne hsame => hne (hkeyed.inj _ href _ hother hsame)
    exact (hentries.filter _).map _ fun s t hst => hst
  · obtain ⟨ref, hmem, -, rfl⟩ := (hsends stored).1 hstored
    exact ⟨ref, hmem, rfl⟩
  · -- an entry that was not posted is neither sent nor discarded nor too old
    have hnot' : ¬ Posted c (c.heap ref).key := hnot
    have hgood := hkeyed.good ref hmem
    refine ⟨_, (hsends _).2 ⟨ref, hmem, ?_, rfl⟩, rfl⟩
    simp only [Entry.kept, Bool.and_eq_true, Bool.not_eq_true', decide_eq_true_eq]
    exact ⟨⟨fun hsent => hnot' (hgood.answered (.inr hsent)), hgood.kept⟩,
      htimely.unposted ref hmem hnot'⟩

theorem Archived.mono {rest : List Stored} {c c' : Compose} (h : Archived rest c)
    (hheap : ∀ ref, (c'.heap ref).toIdentity = (c.heap ref).toIdentity)
    (hentries : c'.entries = c.entries) (hsends : c'.sends = c.sends)
    (hloaded : c'.loaded = c.loaded) (hkeys : c.keys ⊆ c'.keys) (hposts : c.posts ⊆ c'.posts)
    (hcounter : c.counter ≤ c'.counter) : Archived rest c' where
  stored := by
    rw [hsends]
    exact fun stored hstored => (h.stored stored hstored).mono hkeys hposts hcounter
  keys := by rw [hsends]; exact h.keys
  archive hl stored hstored := by
    rw [hsends] at hstored
    rw [hentries]
    refine (h.archive (by rwa [← hloaded]) stored hstored).imp_right ?_
    rintro ⟨ref, hmem, hsame⟩
    exact ⟨ref, hmem, (hheap ref).trans hsame⟩
  unposted ref hmem hnot := by
    rw [hsends, hheap]
    refine h.unposted ref (by rwa [← hentries]) fun hposted => hnot ?_
    rw [congrArg Identity.key (hheap ref)]
    exact hposted.mono hposts

theorem Timely.mono {env : Env} {c c' : Compose} (h : Timely env c)
    (hheap : ∀ ref, (c'.heap ref).toIdentity = (c.heap ref).toIdentity)
    (hentries : c'.entries = c.entries) (hsends : c'.sends = c.sends)
    (hloaded : c'.loaded = c.loaded) (hposts : c.posts ⊆ c'.posts) : Timely env c' where
  stored := by rw [hloaded, hsends]; exact h.stored
  unposted ref hmem hnot := by
    rw [congrArg Identity.created (hheap ref)]
    refine h.unposted ref (by rwa [← hentries]) fun hposted => hnot ?_
    rw [congrArg Identity.key (hheap ref)]
    exact hposted.mono hposts

/-- The invariants of the runs, with the entries `rest` still to be restored. -/
structure Consistent (env : Env) (x : Option ℕ) (rest : List Stored) (c : Compose) : Prop where
  sound : Sound x c
  indexed : Indexed x c
  keyed : Keyed c
  archived : Archived rest c
  timely : Timely env c

namespace Consistent

variable {env : Env} {x : Option ℕ} {rest : List Stored} {c : Compose}

theorem restore {stored : Stored} (h : Consistent env x (stored :: rest) c)
    (hstored : stored ∈ c.sends) (hnone : c.slot stored.draftId stored.attempt = none)
    (hkey : ∀ ref ∈ c.entries, (c.heap ref).key ≠ stored.key)
    (httl : env.now - stored.created < entryTtlMs) (hloaded : c.loaded = true) :
    Consistent env x rest (c.restore stored) := by
  have hgood := h.archived.stored stored hstored
  have hold : ∀ ref ∈ c.entries, (c.restore stored).heap ref = c.heap ref := fun ref hmem =>
    update_of_ne (h.sound.live ref hmem).ne ..
  have hnew : (c.restore stored).heap c.next = stored.restore := update_self ..
  have hmem : ∀ ref ∈ (c.restore stored).entries, ref ∈ c.entries ∨ ref = c.next := by
    simp
  refine ⟨h.sound.restore stored, h.indexed.restore h.sound stored hnone hloaded, ?_, ?_, ?_⟩
  · refine h.keyed.alloc h.sound stored.restore rfl rfl rfl (fun _ => id) rfl ?_ hkey
      (fun hs => absurd hs stored.state_restore_ne) fun draftId draft hdraft => ?_
    · refine ⟨hgood.key, rfl, hgood.account, hgood.chat, fun ha => hgood.answered ?_⟩
      refine ha.resolve_right fun hsent => ?_
      simp only [Stored.restore] at hsent
      split at hsent
      · cases hsent
      · exact hgood.unsent hsent
    · rw [restore_drafts, update_apply] at hdraft
      split_ifs at hdraft with hd
      · obtain rfl := Option.some.inj hdraft
        subst hd
        cases hdraft : c.drafts stored.draftId with
        | none => exact ⟨hgood.draft, hgood.account, hgood.chat⟩
        | some draft => exact h.keyed.drafts _ draft hdraft
      · exact h.keyed.drafts draftId draft hdraft
  · refine ⟨fun other hother => (h.archived.stored other hother).mono (fun _ => id) (fun _ => id)
      le_rfl, h.archived.keys, fun _ other hother => ?_, fun ref href hnot => ?_⟩
    · rcases h.archived.archive hloaded other hother with hin | ⟨ref, href, hsame⟩
      · rcases mem_cons.1 hin with rfl | hin
        · exact .inr ⟨c.next, mem_append_right _ (mem_singleton_self _), by rw [hnew]; rfl⟩
        · exact .inl hin
      · exact .inr ⟨ref, mem_append_left _ href, by rw [hold ref href]; exact hsame⟩
    · rcases hmem ref href with hin | rfl
      · rw [hold ref hin] at hnot ⊢
        exact h.archived.unposted ref hin hnot
      · rw [hnew]
        exact ⟨stored, hstored, rfl⟩
  · refine ⟨fun hfalse => absurd (hloaded.symm.trans hfalse) Bool.noConfusion,
      fun ref href hnot => ?_⟩
    rcases hmem ref href with hin | rfl
    · rw [hold ref hin] at hnot ⊢
      exact h.timely.unposted ref hin hnot
    · rw [hnew]
      exact httl

theorem restoreAll (rest : List Stored)
    (hpairs : rest.Pairwise fun s t => ¬ (s.draftId = t.draftId ∧ s.attempt = t.attempt))
    (hkeys : rest.Pairwise fun s t => s.key ≠ t.key) :
    ∀ {c : Compose}, Consistent env x rest c → c.loaded = true → (∀ s ∈ rest, s ∈ c.sends) →
      (∀ s ∈ rest, c.slot s.draftId s.attempt = none) →
      (∀ s ∈ rest, ∀ ref ∈ c.entries, (c.heap ref).key ≠ s.key) →
      (∀ s ∈ rest, env.now - s.created < entryTtlMs) →
      (∀ ref ∈ c.entries, ∃ s ∈ c.sends, s.toIdentity = (c.heap ref).toIdentity) →
      Consistent env x [] (rest.foldl Compose.restore c) ∧
        (rest.foldl Compose.restore c).sends = c.sends ∧
        (rest.foldl Compose.restore c).loaded = true ∧
        ∀ ref ∈ (rest.foldl Compose.restore c).entries, ∃ s ∈ c.sends,
          s.toIdentity = ((rest.foldl Compose.restore c).heap ref).toIdentity := by
  induction rest with
  | nil => exact fun h hloaded _ _ _ _ horigin => ⟨h, rfl, hloaded, horigin⟩
  | cons first rest ih =>
    intro c h hloaded hsends hslots hne httl horigin
    rw [pairwise_cons] at hpairs hkeys
    have hfirst := mem_cons_self (a := first) (l := rest)
    have hrest : ∀ s ∈ rest, s ∈ first :: rest := fun s hs => mem_cons_of_mem _ hs
    have hold : ∀ ref ∈ c.entries, (c.restore first).heap ref = c.heap ref := fun ref hmem =>
      update_of_ne (h.sound.live ref hmem).ne ..
    have hnew : (c.restore first).heap c.next = first.restore := update_self ..
    have hmem : ∀ ref ∈ (c.restore first).entries, ref ∈ c.entries ∨ ref = c.next := by
      simp
    have hstep := h.restore (hsends first hfirst) (hslots first hfirst) (hne first hfirst)
      (httl first hfirst) hloaded
    refine ih hpairs.2 hkeys.2 hstep hloaded (fun s hs => hsends s (hrest s hs)) (fun s hs => ?_)
      (fun s hs ref href => ?_) (fun s hs => httl s (hrest s hs)) fun ref href => ?_
    · rw [slot_restore, if_neg]
      · exact hslots s (hrest s hs)
      · exact fun hsame => hpairs.1 s hs ⟨hsame.1.symm, hsame.2.symm⟩
    · rcases hmem ref href with hin | rfl
      · rw [hold ref hin]
        exact hne s (hrest s hs) ref hin
      · rw [hnew]
        exact hkeys.1 s hs
    · rcases hmem ref href with hin | rfl
      · rw [hold ref hin]
        exact horigin ref hin
      · rw [hnew]
        exact ⟨first, hsends first hfirst, rfl⟩

theorem persist (h : Consistent env x rest c) (hstorage : env.storage = true) :
    Consistent env x [] (c.persist env) where
  sound := h.sound.congr rfl
  indexed := h.indexed.persist
  keyed := h.keyed.congr rfl
  archived := archived_persist h.indexed h.keyed h.timely hstorage
  timely := by
    refine ⟨fun hfalse stored hstored => ?_, h.timely.unposted⟩
    rw [persist_sends, if_pos hstorage, (h.indexed.unloaded hfalse).1] at hstored
    cases hstored

theorem loadAll (h : Consistent env x [] c) (hstorage : env.storage = true)
    (hfalse : c.loaded = false) :
    c.load env = ((c.sends.foldl Compose.restore { c with loaded := true, entries := [] }).persist
        env) ∧
      let c' := c.sends.foldl Compose.restore { c with loaded := true, entries := [] }
      Consistent env x [] c' ∧ c'.sends = c.sends ∧ c'.loaded = true ∧
        ∀ ref ∈ c'.entries, ∃ s ∈ c.sends, s.toIdentity = (c'.heap ref).toIdentity := by
  obtain ⟨hempty, hdrafts⟩ := h.indexed.unloaded hfalse
  have hrestorable : c.restorable env = c.sends := by
    rw [Compose.restorable, if_pos hstorage, filter_eq_self]
    intro stored hstored
    have hgood := h.archived.stored stored hstored
    obtain ⟨hmark, httl⟩ := h.timely.stored hfalse stored hstored
    simp [Stored.restorable, hmark, httl, hgood.unsent, hgood.account, hgood.chat]
  have hstart : Consistent env x c.sends { c with loaded := true, entries := [] } := by
    refine ⟨{ h.sound with live := forall_mem_nil _ }, ?_, ?_, ?_,
      ⟨Bool.noConfusion, forall_mem_nil _⟩⟩
    · exact { h.indexed with
        nodup := nodup_nil
        filed := forall_mem_nil _
        found := fun d a ref href => by simp [Compose.slot, hdrafts] at href
        tasks := fun task htask => by have := h.indexed.tasks task htask; rwa [hempty] at this
        running := fun ref href => by have := h.indexed.running ref href; rwa [hempty] at this
        unloaded := Bool.noConfusion }
    · exact { h.keyed with
        good := forall_mem_nil _
        inj := forall_mem_nil _
        one := forall_mem_nil _ }
    · exact ⟨fun stored hstored => (h.archived.stored stored hstored).mono (fun _ => id)
        (fun _ => id) le_rfl, h.archived.keys, fun _ stored hstored => .inl hstored, forall_mem_nil _⟩
  have hslots : ∀ s ∈ c.sends, Compose.slot { c with loaded := true, entries := [] } s.draftId
      s.attempt = none := fun s _ => by simp [Compose.slot, hdrafts]
  refine ⟨?_, restoreAll c.sends h.indexed.sends h.archived.keys hstart rfl (fun _ hs => hs) hslots
    (fun _ _ _ href => absurd href not_mem_nil)
    (fun s hs => (h.timely.stored hfalse s hs).2) (fun _ href => absurd href not_mem_nil)⟩
  rw [Compose.load, hfalse, if_neg Bool.noConfusion, hrestorable]

theorem load (h : Consistent env x [] c) (hstorage : env.storage = true) :
    Consistent env x [] (c.load env) := by
  cases hloaded : c.loaded with
  | true =>
    rw [Compose.load, if_pos hloaded]
    exact h
  | false =>
    obtain ⟨heq, hall, -⟩ := h.loadAll hstorage hloaded
    rw [heq]
    exact hall.persist hstorage

end Consistent

/-- The clock and the new key of an event, the storage it finds, and the drafts there were so far:
storage works, the clock is within the time entries are kept, keys are new, and the counter of the
drafts has not come round. No draft is discarded, and the settings are not changed. -/
def Allowed (c : Compose) (e : Env × Event) : Prop :=
  e.1.storage = true ∧ Timely e.1 c ∧
    match e.2 with
    | .draft _ _ => c.counter < 0xFFFFFFF0
    | .send _ _ => newKey e.1.now e.1.random ∉ c.keys
    | .discard _ _ => False
    | .reset => False
    | _ => True

structure Alike (c c' : Compose) : Prop where
  heap : ∀ ref, (c'.heap ref).toIdentity = (c.heap ref).toIdentity
  entries : c'.entries = c.entries
  sends : c'.sends = c.sends
  loaded : c'.loaded = c.loaded
  keys : c'.keys = c.keys
  posts : c'.posts = c.posts
  counter : c'.counter = c.counter

theorem alike_of_eq {c c' : Compose}
    (hview : (c'.heap, c'.entries, c'.sends, c'.loaded, c'.keys, c'.posts, c'.counter) =
      (c.heap, c.entries, c.sends, c.loaded, c.keys, c.posts, c.counter)) : Alike c c' := by
  simp only [Prod.mk.injEq] at hview
  obtain ⟨hheap, hentries, hsends, hloaded, hkeys, hposts, hcounter⟩ := hview
  exact ⟨fun ref => by rw [hheap], hentries, hsends, hloaded, hkeys, hposts, hcounter⟩

theorem alike_modify (c : Compose) (ref : ℕ) (f : Entry → Entry)
    (hf : (f (c.heap ref)).toIdentity = (c.heap ref).toIdentity) : Alike c (c.modify ref f) := by
  refine ⟨fun other => ?_, rfl, rfl, rfl, rfl, rfl, rfl⟩
  rw [modify_heap, update_apply]
  split_ifs with heq
  · rw [hf, heq]
  · rfl

theorem Alike.trans {c c' c'' : Compose} (h : Alike c c') (h' : Alike c' c'') : Alike c c'' :=
  ⟨fun ref => (h'.heap ref).trans (h.heap ref), h'.entries.trans h.entries,
    h'.sends.trans h.sends, h'.loaded.trans h.loaded, h'.keys.trans h.keys,
    h'.posts.trans h.posts, h'.counter.trans h.counter⟩

theorem Alike.archived {c c' : Compose} {rest : List Stored} (h : Alike c c')
    (harchived : Archived rest c) : Archived rest c' :=
  harchived.mono h.heap h.entries h.sends h.loaded (by rw [h.keys]; exact fun _ => id)
    (by rw [h.posts]; exact fun _ => id) h.counter.ge

theorem Alike.timely {c c' : Compose} {env : Env} (h : Alike c c') (htimely : Timely env c) :
    Timely env c' :=
  htimely.mono h.heap h.entries h.sends h.loaded (by rw [h.posts]; exact fun _ => id)

theorem alike_checked (env : Env) (c : Compose) (ref : ℕ) (next : Next) :
    Alike c (c.checked env ref next) :=
  Compose.checked_rule (fun _ h => h.trans (alike_of_eq rfl))
    (fun h => h.trans (alike_modify _ ref _ rfl)) (fun h => h.trans (alike_modify _ ref _ rfl))
    (alike_of_eq rfl) next

theorem Keyed.checked {env : Env} {c : Compose} (h : Keyed c) (ref : ℕ) (next : Next) :
    Keyed (c.checked env ref next) :=
  Compose.checked_rule (fun _ h => h.congr rfl) (fun h => h.touch _ rfl rfl)
    (fun h => h.touch _ rfl rfl) h next

theorem Keyed.receive {c : Compose} {ref : ℕ} (h : Keyed c) (operation : Operation)
    (hposted : Posted c (c.heap ref).key) : Keyed (c.receive ref operation) := by
  have hheard : Keyed (c.hearOperation ref operation) := h.congr rfl
  exact hheard.modify (fun entry => entry.apply operation) (Entry.toIdentity_apply _ _)
    (Entry.discarded_apply _ _) (fun hs => ((Entry.state_apply_dispatching _ _).1 hs).1)
    fun _ => .inr hposted

theorem alike_receive (c : Compose) (ref : ℕ) (operation : Operation) :
    Alike c (c.receive ref operation) := by
  have hheard : Alike c (c.hearOperation ref operation) := alike_of_eq rfl
  exact hheard.trans (alike_modify _ ref (fun entry => entry.apply operation)
    (Entry.toIdentity_apply _ _))

theorem Keyed.receiveAnswer {c : Compose} {ref : ℕ} (h : Keyed c) (operation : Option Operation)
    (hposted : Posted c (c.heap ref).key) : Keyed (c.receiveAnswer ref operation) := by
  cases operation with
  | none => exact h
  | some operation => exact h.receive operation hposted

theorem alike_receiveAnswer (c : Compose) (ref : ℕ) (operation : Option Operation) :
    Alike c (c.receiveAnswer ref operation) := by
  cases operation with
  | none => exact alike_of_eq rfl
  | some operation => exact alike_receive c ref operation

theorem finish_kept {env : Env} {c : Compose} (hindexed : Indexed none c) (hkeyed : Keyed c)
    (htimely : Timely env c) (hstorage : env.storage = true) (dispatch : Dispatch)
    (code : Option ResultCode) (hmem : dispatch.ref ∈ c.entries)
    (hfree : dispatch.done = .send → ∀ task ∈ c.tasks, task.ref ≠ dispatch.ref) :
    Keyed (c.finish env dispatch code) ∧ Archived [] (c.finish env dispatch code) ∧
      Timely env (c.finish env dispatch code) := by
  have hpersist : Archived [] (c.persist env) :=
    archived_persist hindexed hkeyed htimely hstorage
  have htimely' : Timely env (c.persist env) := by
    refine ⟨fun hfalse => ?_, htimely.unposted⟩
    rw [(hindexed.unloaded hfalse).1] at hmem
    cases hmem
  have hkeyed' : Keyed (c.persist env) := hkeyed.congr rfl
  unfold finish
  split
  · next reason hdone =>
    -- the entry is forgotten, and what is stored then is what is left
    have hdropped : Keyed (c.dropWaiters dispatch.ref) := hkeyed.touch _ rfl rfl
    have halike : Alike c (c.dropWaiters dispatch.ref) := alike_modify c _ _ rfl
    have hindexed' : Indexed none ((c.dropWaiters dispatch.ref).forget dispatch.ref) :=
      Indexed.forget (hindexed.modify _ rfl) hmem (hfree hdone)
    have hkept : Keyed ((c.dropWaiters dispatch.ref).forget dispatch.ref) := hdropped.forget _
    have hclock : Timely env ((c.dropWaiters dispatch.ref).forget dispatch.ref) :=
      ⟨(halike.timely htimely).stored, fun ref hin =>
        (halike.timely htimely).unposted ref (mem_of_mem_filter hin)⟩
    have hlast : Alike (((c.dropWaiters dispatch.ref).forget dispatch.ref).persist env)
        (c.abandon env dispatch.ref reason) := alike_of_eq rfl
    refine ⟨hkept.congr rfl,
      hlast.archived (archived_persist hindexed' hkept hclock hstorage),
      hlast.timely ⟨fun hfalse => ?_, hclock.unposted⟩⟩
    have hempty := (hindexed.unloaded hfalse).1
    rw [hempty] at hmem
    cases hmem
  · have halike : Alike (c.persist env) ((c.persist env).settle dispatch.ref) :=
      (alike_modify (c.persist env) dispatch.ref (fun entry => entry.setWaiters []) rfl).trans
        (alike_of_eq rfl)
    have hdropped : Keyed ((c.persist env).dropWaiters dispatch.ref) := hkeyed'.touch _ rfl rfl
    exact ⟨hdropped.congr rfl, halike.archived hpersist,
      halike.timely htimely'⟩
  · have halike := alike_checked env (c.persist env) dispatch.ref
    exact ⟨hkeyed'.checked _ _, (halike _).archived hpersist, (halike _).timely htimely'⟩

namespace Consistent

variable {env : Env} {x x' : Option ℕ} {c c' : Compose}

theorem build (h : Consistent env x [] c) (hindexed : Sound x' c' ∧ Indexed x' c')
    (hkeyed : Keyed c') (halike : Alike c c') : Consistent env x' [] c' :=
  ⟨hindexed.1, hindexed.2, hkeyed, halike.archived h.archived, halike.timely h.timely⟩

theorem post (h : Consistent env x [] c) {dispatch : Dispatch}
    (hindexed : Sound x' (c.post dispatch) ∧ Indexed x' (c.post dispatch))
    (hmem : dispatch.ref ∈ c.entries) : Consistent env x' [] (c.post dispatch) :=
  ⟨hindexed.1, hindexed.2, h.keyed.post h.archived hmem,
    h.archived.mono (fun _ => rfl) rfl rfl rfl (fun _ => id) (subset_append_left ..) le_rfl,
    h.timely.mono (fun _ => rfl) rfl rfl rfl (subset_append_left ..)⟩

theorem answerPost (h : Consistent env none [] c) (hstorage : env.storage = true) {i : ℕ}
    {dispatch : Dispatch} (htask : c.tasks[i]? = some (.post dispatch)) (result : ApiResult) :
    Consistent env none [] ((c.take i).answerPost env dispatch result) := by
  have hin := mem_of_getElem? htask
  have hmem : dispatch.ref ∈ c.entries := h.indexed.tasks _ hin
  have hposted : Posted c (c.heap dispatch.ref).key := h.keyed.tasks _ hin rfl
  have hfree : dispatch.done = .send → ∀ task ∈ (c.take i).tasks, task.ref ≠ dispatch.ref :=
    fun hdone => ((h.sound.takeSend htask (by simp [Task.sends, hdone])).running _ rfl).2.2
  have htake : Indexed none (c.take i) := (h.indexed.take htask).drop
  have hkeyed : Keyed (c.take i) := h.keyed.take i
  have htimely : Timely env (c.take i) :=
    h.timely.mono (fun _ => rfl) rfl rfl rfl (fun _ => id)
  -- an assignment to the entry of the POST, then the end of the dispatch
  have hassign : ∀ (c' : Compose) (f : Entry → Entry) (code : Option ResultCode),
      Indexed none c' → Keyed c' → Timely env c' → c'.heap = c.heap → c'.entries = c.entries →
      c'.tasks = (c.take i).tasks → c'.posts = c.posts →
      (f (c.heap dispatch.ref)).toIdentity = (c.heap dispatch.ref).toIdentity →
      (f (c.heap dispatch.ref)).discarded = (c.heap dispatch.ref).discarded →
      (f (c.heap dispatch.ref)).state ≠ .dispatching →
      Keyed ((c'.modify dispatch.ref f).finish env dispatch code) ∧
        Archived [] ((c'.modify dispatch.ref f).finish env dispatch code) ∧
        Timely env ((c'.modify dispatch.ref f).finish env dispatch code) := by
    intro c' f code hi hk ht hheap hentries htasks hposts hidentity hkept hstate
    rw [← hheap] at hidentity hkept hstate
    have hposted' : Posted c' (c'.heap dispatch.ref).key := by
      rw [hheap]
      exact hposted.mono (by rw [hposts]; exact fun _ => id)
    refine finish_kept (hi.modify f hidentity) (hk.modify f hidentity hkept
      (fun hs => absurd hs hstate) fun _ => .inr hposted')
      ((alike_modify c' _ f hidentity).timely ht) hstorage dispatch code ?_ ?_
    · rw [modify_entries, hentries]
      exact hmem
    · rw [modify_tasks, htasks]
      exact hfree
  suffices hrest : Keyed ((c.take i).answerPost env dispatch result) ∧
      Archived [] ((c.take i).answerPost env dispatch result) ∧
      Timely env ((c.take i).answerPost env dispatch result) from
    ⟨h.sound.answerPost htask result, h.indexed.answerPost h.sound htask result, hrest.1,
      hrest.2.1, hrest.2.2⟩
  cases result with
  | ok operation =>
    have halike := alike_receiveAnswer (c.take i) dispatch.ref operation
    refine finish_kept (htake.receiveAnswer operation) (hkeyed.receiveAnswer operation hposted)
      (halike.timely htimely) hstorage dispatch none ?_ ?_
    · rw [halike.entries]
      exact hmem
    · cases operation <;> exact hfree
  | error status code retryAfter =>
    simp only [Compose.answerPost]
    split
    · have halike : Alike (c.take i)
          ((c.take i).hear (.lost ((c.take i).heap dispatch.ref).key)) :=
        alike_of_eq rfl
      have hheard : Keyed ((c.take i).hear (.lost ((c.take i).heap dispatch.ref).key)) :=
        hkeyed.congr rfl
      unfold lostPost
      split
      · have halike' : Alike c (((c.take i).hear (.lost ((c.take i).heap dispatch.ref).key)).await
            (.retry dispatch)) := alike_of_eq rfl
        exact ⟨hheard.await (.retry dispatch) fun _ => hposted, halike'.archived h.archived,
          halike'.timely h.timely⟩
      · have hindexed : Indexed none
            ((c.take i).hear (.lost ((c.take i).heap dispatch.ref).key)) :=
          htake.congr rfl
        exact hassign _ _ _ hindexed hheard (halike.timely htimely) rfl rfl rfl rfl rfl rfl
          SendState.noConfusion
    · unfold refusedPost
      split
      · exact hassign _ _ _ htake hkeyed htimely rfl rfl rfl rfl rfl rfl SendState.noConfusion
      · exact hassign _ _ _ htake hkeyed htimely rfl rfl rfl rfl rfl rfl SendState.noConfusion

theorem enter (h : Consistent env none [] c) (hstorage : env.storage = true)
    (hloaded : c.loaded = true) {draftId : ℕ} {found : Draft} {attempt : ℕ} (sequence : ℕ)
    (value : Settings) (hfound : c.drafts draftId = some found)
    (hnone : found.attempts attempt = none) (hbusy : c.busy = false)
    (hkey : newKey env.now env.random ∉ c.keys)
    (hindexed : Sound (some c.next) (c.enter env found attempt sequence value) ∧
      Indexed (some c.next) (c.enter env found attempt sequence value)) :
    Consistent env (some c.next) [] (c.enter env found attempt sequence value) := by
  obtain rfl : found.id = draftId := h.indexed.ids draftId found hfound
  obtain ⟨hle, haccount, hchat⟩ := h.keyed.drafts _ found hfound
  have hkeyed : Keyed (c.add env found attempt sequence value) := by
    refine h.keyed.alloc h.sound (newEntry env found attempt sequence value) rfl rfl rfl
      (subset_append_left ..) rfl ?_ (fun ref hmem heq => hkey ?_) (fun _ ref hmem hs => ?_)
      fun draftId draft hdraft => ?_
    · exact ⟨mem_append_right _ (mem_singleton_self _), rfl, haccount, hchat, by
        simp [Entry.known, newEntry]⟩
    · have hold := (h.keyed.good ref hmem).key
      rwa [heq] at hold
    · simp only [busy, any_eq_false, decide_eq_true_eq] at hbusy
      exact hbusy ref hmem hs
    · rw [add_drafts, update_apply] at hdraft
      split_ifs at hdraft with hd
      · obtain rfl := Option.some.inj hdraft
        subst hd
        exact ⟨hle, haccount, hchat⟩
      · exact h.keyed.drafts draftId draft hdraft
  have hadd : Indexed none (c.add env found attempt sequence value) :=
    h.indexed.add h.sound hfound hnone hloaded
  have htimely : Timely env (c.add env found attempt sequence value) := by
    refine ⟨fun hfalse => absurd (hloaded.symm.trans hfalse) Bool.noConfusion,
      fun ref hmem hnot => ?_⟩
    rw [add_entries, mem_append, mem_singleton] at hmem
    rcases hmem with hin | rfl
    · have hold : (c.add env found attempt sequence value).heap ref = c.heap ref :=
        update_of_ne (h.sound.live ref hin).ne ..
      rw [hold] at hnot ⊢
      exact h.timely.unposted ref hin hnot
    · have hnew : (c.add env found attempt sequence value).heap c.next =
          newEntry env found attempt sequence value := update_self ..
      rw [hnew]
      simp [newEntry, entryTtlMs]
  exact ⟨hindexed.1, hindexed.2, hkeyed.congr rfl,
    archived_persist hadd hkeyed htimely hstorage,
    ⟨fun hfalse => absurd (hloaded.symm.trans hfalse) Bool.noConfusion, htimely.unposted⟩⟩

end Consistent

theorem load_kept (c : Compose) (env : Env) : (c.load env).keys = c.keys ∧
    (c.load env).counter = c.counter ∧ (c.load env).posts = c.posts := by
  have hfold : ∀ (stored : List Stored) (c : Compose),
      (stored.foldl Compose.restore c).keys = c.keys ∧
        (stored.foldl Compose.restore c).counter = c.counter ∧
        (stored.foldl Compose.restore c).posts = c.posts := by
    intro stored
    induction stored with
    | nil => exact fun c => ⟨rfl, rfl, rfl⟩
    | cons first rest ih => exact fun c => ih _
  unfold Compose.load
  split
  · exact ⟨rfl, rfl, rfl⟩
  · exact hfold _ _

theorem nextDraftId_eq {c : Compose} {env : Env} (hstorage : env.storage = true)
    (hlt : c.counter < 0xFFFFFFF0) : c.nextDraftId env = c.counter + 1 := by
  unfold nextDraftId
  split_ifs with hcounter
  · rfl
  · have hzero : c.counter = 0 := by
      by_contra hpos
      exact hcounter ⟨hstorage, Nat.pos_of_ne_zero hpos, hlt⟩
    rw [hzero]

theorem ordinary_of_allowed {c : Compose} {e : Env × Event} (he : Allowed c e)
    (h : Consistent e.1 none [] c) : Ordinary c e := by
  obtain ⟨env, event⟩ := e
  obtain ⟨hstorage, -, hevent⟩ := he
  cases event with
  | draft sequence payload =>
    have hload := h.load hstorage
    have hlt : (c.load env).counter < 0xFFFFFFF0 := by
      rw [(load_kept c env).2.1]
      exact hevent
    change (c.load env).drafts ((c.load env).nextDraftId env) = none
    rw [nextDraftId_eq hstorage hlt]
    cases hdraft : (c.load env).drafts ((c.load env).counter + 1) with
    | none => rfl
    | some draft => exact absurd (hload.keyed.drafts _ draft hdraft).1 (Nat.not_succ_le_self _)
  | discard sequence draftId | reset => exact hevent
  | _ => trivial

theorem Consistent.addDraft {env : Env} {c : Compose} (h : Consistent env none [] c)
    (hstorage : env.storage = true) (hlt : c.counter < 0xFFFFFFF0) (sequence : ℕ)
    (payload : DraftPayload) (text : JsString) (htarget : target payload)
    (hindexed : Sound none (c.addDraft env sequence payload text) ∧
      Indexed none (c.addDraft env sequence payload text)) :
    Consistent env none [] (c.addDraft env sequence payload text) := by
  have hcounter : (c.addDraft env sequence payload text).counter = c.counter + 1 := by
    simp [Compose.addDraft, hstorage, nextDraftId_eq hstorage hlt]
  have hle : c.counter ≤ (c.addDraft env sequence payload text).counter := by
    rw [hcounter]
    exact Nat.le_succ _
  refine ⟨hindexed.1, hindexed.2, ?_,
    h.archived.mono (fun _ => rfl) rfl rfl rfl (fun _ => id) (fun _ => id) hle,
    h.timely.mono (fun _ => rfl) rfl rfl rfl (fun _ => id)⟩
  refine { h.keyed with
    good := fun ref hmem => (h.keyed.good ref hmem).mono (fun _ => id) (fun _ => id)
    drafts := fun draftId draft hdraft => ?_ }
  rw [hcounter]
  simp only [Compose.addDraft, Compose.respond_drafts, update_apply] at hdraft
  split_ifs at hdraft with hd
  · obtain rfl := Option.some.inj hdraft
    simp only [target, Bool.and_eq_true] at htarget
    rw [hd, nextDraftId_eq hstorage hlt]
    exact ⟨le_rfl, htarget.1.1, htarget.1.2⟩
  · obtain ⟨hid, hrest⟩ := h.keyed.drafts draftId draft hdraft
    exact ⟨hid.trans (Nat.le_succ _), hrest⟩

theorem Consistent.readStatus {env : Env} {c : Compose} (h : Consistent env none [] c) {i ref : ℕ}
    {next : Next} (htask : c.tasks[i]? = some (.status ref next)) (result : ApiResult)
    (hindexed : Sound none ((c.take i).readStatus ref result) ∧
      Indexed none ((c.take i).readStatus ref result)) :
    Consistent env none [] ((c.take i).readStatus ref result) := by
  have hposted : Posted c (c.heap ref).key := h.keyed.tasks _ (mem_of_getElem? htask) rfl
  have hkeyed : Keyed (c.take i) := h.keyed.take i
  have halike : Alike c (c.take i) := alike_of_eq rfl
  cases result with
  | ok operation =>
    exact h.build hindexed (hkeyed.receiveAnswer operation hposted)
      (halike.trans (alike_receiveAnswer _ ref operation))
  | error status code retryAfter =>
    simp only [Compose.readStatus] at hindexed ⊢
    split_ifs at hindexed ⊢
    · exact h.build hindexed (hkeyed.modify _ rfl rfl SendState.noConfusion fun _ => .inr hposted)
        (halike.trans (alike_modify _ ref _ rfl))
    · exact h.build hindexed hkeyed halike

theorem closed_consistent {first : Compose} {e : Env × Event} (he : Allowed first e)
    (hfirst : Consistent e.1 none [] first) (hrestart : e.2 ≠ .restart) :
    Closed first e fun x c => Consistent e.1 x [] c := by
  have hordinary := ordinary_of_allowed he hfirst
  have hclosed := closed_indexed hordinary
  have hnot : ∀ {p : Prop}, ¬ Ordinary first e → p := fun hne => absurd hordinary hne
  exact
    { say := fun output _ h => h.build (hclosed.say output trivial ⟨h.sound, h.indexed⟩)
        (h.keyed.congr rfl) (alike_of_eq rfl)
      persist := fun _ h => h.persist he.1
      load := fun _ h => h.load he.1
      track := fun ref _ h => h.build (hclosed.track ref trivial ⟨h.sound, h.indexed⟩)
        (h.keyed.touch _ rfl rfl) (alike_modify _ ref _ rfl)
      setChecking := fun ref checking _ h =>
        h.build (hclosed.setChecking ref checking trivial ⟨h.sound, h.indexed⟩)
          (h.keyed.touch _ rfl rfl) (alike_modify _ ref _ rfl)
      join := fun sequence _ h hfiled hstate =>
        h.build (hclosed.join sequence trivial ⟨h.sound, h.indexed⟩ hfiled hstate)
          (h.keyed.touch _ rfl rfl) (alike_modify _ _ _ rfl)
      receive := fun operation _ h hmem hknown =>
        h.build (hclosed.receive operation trivial ⟨h.sound, h.indexed⟩ hmem hknown)
          (h.keyed.receive operation ((h.keyed.good _ hmem).answered (.inl hknown)))
          (alike_receive _ _ operation)
      status := fun {x c ref} next _ h href hknown hstate => by
        have hmem : ref ∈ c.entries := by
          rcases href with hmem | ⟨d, a, hslot⟩
          · exact hmem
          · exact (h.indexed.found d a _ hslot).1
        exact h.build (hclosed.status next trivial ⟨h.sound, h.indexed⟩ href hknown hstate)
          (h.keyed.await _ fun _ => (h.keyed.good _ hmem).answered (.inl hknown))
          (alike_of_eq rfl)
      checkDispatch := fun value next _ h hfiled hknown hstate hsent => by
        have hindexed := hclosed.checkDispatch value next trivial ⟨h.sound, h.indexed⟩ hfiled
          hknown hstate hsent
        obtain ⟨d, a, hslot⟩ := hfiled
        exact h.post hindexed (h.indexed.found d a _ hslot).1
      enter := fun sequence value hc _ h hsend hfound hnone hbusy hvalue => by
        obtain ⟨seq, payload, hevent⟩ := hsend
        have hkey := he.2.2
        rw [hevent] at hkey
        refine h.enter he.1 (by rw [hc, loaded_load]) sequence value hfound hnone hbusy ?_
          (hclosed.enter sequence value hc trivial ⟨h.sound, h.indexed⟩ ⟨seq, payload, hevent⟩ hfound
            hnone hbusy hvalue)
        rw [hc, (load_kept first e.1).1]
        exact hkey
      sendDispatch := fun value _ h => h.post (hclosed.sendDispatch value trivial ⟨h.sound, h.indexed⟩)
        (h.indexed.running _ rfl)
      wait := fun value _ h => h.build (hclosed.wait value trivial ⟨h.sound, h.indexed⟩)
        (h.keyed.await _ nofun) (alike_of_eq rfl)
      addDraft := fun {c} sequence payload text hc _ h hdraft htarget => by
        have hindexed := hclosed.addDraft sequence payload text hc trivial ⟨h.sound, h.indexed⟩
          hdraft htarget
        have hcounter := he.2.2
        rw [hdraft] at hcounter
        refine h.addDraft he.1 ?_ sequence payload text htarget hindexed
        rw [hc, (load_kept first e.1).2.1]
        exact hcounter
      polled := fun _ h htask => h.build (hclosed.polled trivial ⟨h.sound, h.indexed⟩ htask)
        (h.keyed.take _) (alike_of_eq rfl)
      timer := fun {c i dispatch} _ h htask => by
        have hin := mem_of_getElem? htask
        have htake : Consistent e.1 none [] (c.take i) :=
          h.build ⟨h.sound.take i, (h.indexed.take htask).drop⟩ (h.keyed.take i)
            (alike_of_eq rfl)
        exact htake.post (hclosed.timer trivial ⟨h.sound, h.indexed⟩ htask) (h.indexed.tasks _ hin)
      readStatus := fun result _ h htask =>
        h.readStatus htask result (hclosed.readStatus result trivial ⟨h.sound, h.indexed⟩ htask)
      posted := fun {i dispatch result} _ h hposted htask => h.answerPost he.1 htask result
      discardEntry := fun _ _ _ hdiscard _ _ => hnot (by simp [Ordinary, hdiscard])
      dropDraft := fun _ _ hdiscard _ _ => hnot (by simp [Ordinary, hdiscard])
      clear := fun hreset _ _ => hnot (by simp [Ordinary, hreset])
      restart := fun hevent _ _ => absurd hevent hrestart }

end Phone
