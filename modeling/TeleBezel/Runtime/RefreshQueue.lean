import Mathlib.Data.Finset.Erase
import Mathlib.Data.Finset.SDiff
import Mathlib.Data.Prod.Lex
import TeleBezel.Runtime.InterestCounts

/-!
# The queue of refreshes

`ReadModelService` of `backend-tdlib/src/read_model_service.cpp` reads again in the background what a call
has answered from local storage. Each account has a queue of jobs, and the accounts take turns. The keys
of the reads that are queued or being run are kept, so that a read is not queued twice; the evictions that
`queue_job` of `media_sources.cpp` queues go past the keys and past the limit of a queue. A job is run
between the two sections of `refresh_once`, and every other call may come while it is: there is one such
thread, and nothing here depends on it.
-/

open List

namespace Runtime

open Transition Interests

inductive RefreshKind
  | history
  | message
  | evict
deriving DecidableEq

def evictKey : List Char := "evict:".toList

/-- The keys as `refresh_job` and the two places that evict build them. -/
def keyOf (kind : RefreshKind) (uuid key : List Char) : Bool :=
  match kind with
  | .evict => evictKey.isPrefixOf key
  | _ => validUuid uuid && (uuid ++ [':']).isPrefixOf key

/-- `RefreshJob`, with what `run_refresh` reads of it in `work`. -/
structure RefreshJob where
  kind : RefreshKind
  uuid : List Char
  key : List Char
  work : List ℤ
  keyed : keyOf kind uuid key = true
deriving DecidableEq

def RefreshJob.reads (job : RefreshJob) : Bool := job.kind ≠ .evict

/-- What `enqueue_refresh` answers. -/
inductive RefreshAnswer
  | stopped
  | pending
  | saturated
  | queued
  | completed
  | unchanged
deriving DecidableEq

structure RefreshOutcome where
  state : RefreshAnswer
  «at» : ℕ
  ended : state = .completed ∨ state = .unchanged

/-- `refresh_cooldown`, in seconds. -/
def refreshCooldown : ℕ := 5

def refreshQueuePerAccount : ℕ := 32

def refreshResultsRetained : ℕ := 512

/-- The fields of the service under `refresh_mutex_`, and the jobs that are being run. The last three
fields record the jobs that were queued, that were taken to be run and that were thrown away. -/
structure RefreshQueue where
  queues : OrderedMap (List Char) (List RefreshJob) := {}
  rotation : List (List Char) := []
  keys : Finset (List Char) := ∅
  results : OrderedMap (List Char) RefreshOutcome := {}
  stopping : Bool := true
  running : List RefreshJob := []
  accepted : List RefreshJob := []
  started : List RefreshJob := []
  cancelled : List RefreshJob := []

namespace RefreshQueue

variable (s : RefreshQueue)

def queue (uuid : List Char) : List RefreshJob := (s.queues.find uuid).getD []

/-- `queue_job`, which is also how `enqueue_refresh` ends. -/
def queueJob (job : RefreshJob) : RefreshQueue :=
  { s with
    rotation := if s.queue job.uuid = [] then s.rotation ++ [job.uuid] else s.rotation
    queues := s.queues.put job.uuid (s.queue job.uuid ++ [job])
    accepted := s.accepted ++ [job] }

def enqueueRefresh (job : RefreshJob) (now : ℕ) : RefreshQueue × RefreshAnswer :=
  if s.stopping then (s, .stopped)
  else if job.key ∈ s.keys then (s, .pending)
  else
    match (s.results.find job.key).filter fun outcome => now < outcome.«at» + refreshCooldown with
    | some outcome => (s, outcome.state)
    | none =>
      if refreshQueuePerAccount ≤ (s.queue job.uuid).length then
        -- `operator[]` has made an entry, but only where there was none
        ({ s with queues := s.queues.put job.uuid (s.queue job.uuid) }, .saturated)
      else ({ s.queueJob job with keys := insert job.key s.keys }, .queued)

/-- The loop of `remember_outcome`. Each turn drops an outcome. -/
def forgetOldest : ℕ → OrderedMap (List Char) RefreshOutcome → OrderedMap (List Char) RefreshOutcome
  | 0, results => results
  | turns + 1, results =>
    if refreshResultsRetained ≤ results.size then
      match results.victim (fun _ => true) RefreshOutcome.«at» with
      | none => results
      | some oldest => forgetOldest turns (results.erase oldest.1)
    else results

def rememberOutcome (key : List Char) (changed : Bool) (now : ℕ) : RefreshQueue :=
  let kept := if refreshResultsRetained ≤ s.results.size then
      s.results.filter fun entry => now < entry.2.«at» + refreshCooldown
    else s.results
  { s with
    results := (forgetOldest kept.size kept).put key
      ⟨if changed then .completed else .unchanged, now, by cases changed <;> decide⟩ }

/-- `cancel_account`. The entries of media have a model of their own. -/
def cancelAccount (uuid : List Char) : RefreshQueue :=
  { s with
    keys := s.keys \ ((s.queue uuid).map RefreshJob.key).toFinset
    queues := s.queues.erase uuid
    rotation := s.rotation.filter (· ≠ uuid)
    results := s.results.filter fun entry => !(uuid ++ [':']).isPrefixOf entry.1
    cancelled := s.cancelled ++ s.queue uuid }

/-- The first section of `refresh_once`. A queue in the map is never empty. -/
def takeJob : RefreshQueue :=
  match s.rotation with
  | [] => s
  | uuid :: rotation =>
    match s.queues.find uuid with
    | none | some [] => { s with rotation := rotation }
    | some (job :: jobs) =>
      { s with
        rotation := if jobs = [] then rotation else rotation ++ [uuid]
        queues := if jobs = [] then s.queues.erase uuid else s.queues.put uuid jobs
        running := s.running ++ [job]
        started := s.started ++ [job] }

/-- The second section of `refresh_once`, after the job with an index among those that are run. What
`run_refresh` throws counts as no change. -/
def jobDone (index : ℕ) (changed : Bool) (now : ℕ) : RefreshQueue :=
  match s.running[index]? with
  | none => s
  | some job =>
    let s := { s with keys := s.keys.erase job.key, running := s.running.eraseIdx index }
    if job.reads then s.rememberOutcome job.key changed now else s

end RefreshQueue

inductive RefreshEvent
  | start
  | stop
  | enqueue (job : {job : RefreshJob // job.reads = true}) (now : ℕ)
  | queueJob (job : {job : RefreshJob // job.reads = false})
  | take
  | done (index : ℕ) (changed : Bool) (now : ℕ)
  | cancel (uuid : List Char)

namespace RefreshQueue

def step (s : RefreshQueue) : RefreshEvent → RefreshQueue
  | .start => { s with stopping := false }
  | .stop => { s with stopping := true }
  | .enqueue job now => (s.enqueueRefresh job now).1
  | .queueJob job => s.queueJob job
  | .take => s.takeJob
  | .done index changed now => s.jobDone index changed now
  | .cancel uuid => s.cancelAccount uuid

def queued (s : RefreshQueue) : List RefreshJob := s.queues.entries.flatMap Prod.snd

def held (s : RefreshQueue) : List RefreshJob := (s.queued ++ s.running).filter RefreshJob.reads

/-- The books of the queue agree. -/
structure Bookkept (s : RefreshQueue) : Prop where
  /-- The accounts that have jobs are in the rotation, once each, and no others. -/
  once : s.rotation.Nodup
  turn : ∀ uuid, uuid ∈ s.rotation ↔ s.queue uuid ≠ []
  filled : ∀ uuid, s.queues.find uuid ≠ some []
  /-- The keys are those of the reads that are held. -/
  keys : ∀ key, key ∈ s.keys ↔ ∃ job ∈ s.held, job.key = key
  unlike : (s.held.map RefreshJob.key).Nodup
  /-- A read can be queued unless it is held. -/
  free : ∀ job now, (∀ other ∈ s.held, other.key ≠ job.key) → (s.enqueueRefresh job now).2 ≠ .pending
  /-- A job that was queued waits, or was taken once, or was thrown away. -/
  counted : ∀ job,
    s.accepted.count job = s.queued.count job + s.started.count job + s.cancelled.count job

/-! ### The numbers of jobs -/

section Counts

variable {s t : RefreshQueue} {uuid : List Char} {jobs : List RefreshJob}

def setQueue (queues : OrderedMap (List Char) (List RefreshJob)) (uuid : List Char)
    (jobs : List RefreshJob) : OrderedMap (List Char) (List RefreshJob) :=
  if jobs = [] then queues.erase uuid else queues.put uuid jobs

theorem find_set (queues : OrderedMap (List Char) (List RefreshJob)) (other : List Char) :
    (setQueue queues uuid jobs).find other =
      if other = uuid then if jobs = [] then none else some jobs else queues.find other := by
  rw [setQueue]
  by_cases hjobs : jobs = []
  · rw [if_pos hjobs, OrderedMap.find_erase, if_pos hjobs]
    split_ifs <;> rfl
  · rw [if_neg hjobs, OrderedMap.find_put, if_neg hjobs]
    split_ifs <;> rfl

theorem queue_set (ht : t.queues = setQueue s.queues uuid jobs) (other : List Char) :
    t.queue other = if other = uuid then jobs else s.queue other := by
  rw [queue, queue, ht, find_set]
  split_ifs with hsame hjobs
  · exact hjobs.symm
  · rfl
  · rfl

theorem countP_queued (P : RefreshJob → Bool) :
    s.queued.countP P = s.queues.total fun jobs => jobs.countP P := by
  rw [queued, countP_flatMap]
  rfl

theorem countP_set (ht : t.queues = setQueue s.queues uuid jobs) (P : RefreshJob → Bool) :
    t.queued.countP P + (s.queue uuid).countP P = s.queued.countP P + jobs.countP P := by
  have herase := OrderedMap.total_erase (m := s.queues) uuid fun jobs => jobs.countP P
  have hqueue : (s.queues.find uuid).elim 0 (fun jobs => jobs.countP P) = (s.queue uuid).countP P := by
    rw [queue]
    cases s.queues.find uuid <;> rfl
  rw [countP_queued, countP_queued, ht, setQueue, ← hqueue]
  split_ifs with hjobs
  · rw [hjobs]
    exact herase
  · rw [OrderedMap.total_put]
    omega

end Counts

def readsKey (key : List Char) (job : RefreshJob) : Bool := job.reads && job.key = key

theorem key_ne_of_reads {job other : RefreshJob} (h : job.reads = true) (hother : other.reads = false) :
    job.key ≠ other.key := by
  intro hkey
  have hread : validUuid job.uuid = true ∧ job.uuid ++ [':'] <+: job.key := by
    have hkeyed := job.keyed
    unfold keyOf at hkeyed
    revert hkeyed h
    cases hkind : job.kind <;> simp [RefreshJob.reads, hkind, List.isPrefixOf_iff_prefix]
  have hevict : evictKey <+: job.key := by
    have hkeyed := other.keyed
    rw [show other.kind = .evict by simpa [RefreshJob.reads] using hother] at hkeyed
    rw [hkey]
    exact List.isPrefixOf_iff_prefix.mp hkeyed
  have hlength : job.uuid.length = 36 := by
    have := hread.1
    unfold validUuid at this
    simp only [Bool.and_eq_true, decide_eq_true_eq] at this
    exact this.1
  -- a key of a read has its first colon after the identifier
  have hstart : evictKey <+: job.uuid := by
    refine prefix_of_prefix_length_le hevict ((prefix_append _ _).trans hread.2) ?_
    rw [hlength]
    decide
  exact colon_of_validUuid hread.1 (hstart.subset (by decide))

def Once (keys : Finset (List Char)) (key : List Char) (number : ℕ) : Prop :=
  (key ∈ keys → number = 1) ∧ (key ∉ keys → number = 0)

structure Sound (s : RefreshQueue) : Prop where
  once : s.rotation.Nodup
  turn : ∀ uuid, uuid ∈ s.rotation ↔ s.queue uuid ≠ []
  filled : ∀ uuid, s.queues.find uuid ≠ some []
  owned : ∀ uuid, ∀ job ∈ s.queue uuid, job.uuid = uuid
  keys : ∀ key, Once s.keys key (s.queued.countP (readsKey key) + s.running.countP (readsKey key))
  counted : ∀ job,
    s.accepted.count job = s.queued.count job + s.started.count job + s.cancelled.count job

section Steps

variable {s : RefreshQueue}

theorem readsKey_evict {job other : RefreshJob} (h : job.reads = false) :
    readsKey job.key other = false := by
  rw [readsKey, Bool.and_eq_false_imp]
  exact fun hother => decide_eq_false (key_ne_of_reads hother h)

theorem Sound.evict_not_mem (h : Sound s) {job : RefreshJob} (hjob : job.reads = false) :
    job.key ∉ s.keys := by
  intro hmem
  have hkeys := (h.keys job.key).1 hmem
  have hnone : ∀ jobs : List RefreshJob, jobs.countP (readsKey job.key) = 0 := fun jobs =>
    countP_eq_zero.mpr (by simp [readsKey_evict hjob])
  simp [hnone] at hkeys

variable {jobs : List RefreshJob}

theorem Sound.set (h : Sound s) {t : RefreshQueue} {uuid : List Char}
    (ht : t.queues = setQueue s.queues uuid jobs) (howned : ∀ job ∈ jobs, job.uuid = uuid)
    (honce : t.rotation.Nodup)
    (hturn : ∀ other, other ∈ t.rotation ↔ if other = uuid then jobs ≠ [] else other ∈ s.rotation)
    (hkeys : ∀ key, Once t.keys key (t.queued.countP (readsKey key) + t.running.countP (readsKey key)))
    (hcounted : ∀ job, t.accepted.count job + (s.queue uuid).count job + s.started.count job +
      s.cancelled.count job = s.accepted.count job + jobs.count job + t.started.count job +
        t.cancelled.count job) : Sound t := by
  refine ⟨honce, fun other => ?_, fun other => ?_, fun other job hjob => ?_, hkeys, fun job => ?_⟩
  · rw [hturn, queue_set ht]
    split_ifs
    · exact Iff.rfl
    · exact h.turn other
  · rw [ht, find_set]
    split_ifs with hsame hjobs
    · simp
    · simpa using hjobs
    · exact h.filled other
  · rw [queue_set ht] at hjob
    split_ifs at hjob with hsame
    · exact hsame ▸ howned job hjob
    · exact h.owned other job hjob
  · have hset := countP_set ht (· == job)
    have hbefore := h.counted job
    have hafter := hcounted job
    simp only [List.count] at *
    omega

theorem Sound.queueJob (h : Sound s) (job : RefreshJob) {keys : Finset (List Char)}
    (hkeys : ∀ key, Once keys key (s.queued.countP (readsKey key) + s.running.countP (readsKey key) +
      [job].countP (readsKey key))) :
    Sound { s.queueJob job with keys := keys } := by
  have hset : ({ s.queueJob job with keys := keys } : RefreshQueue).queues =
      setQueue s.queues job.uuid (s.queue job.uuid ++ [job]) := by
    rw [setQueue, if_neg (by simp)]
    rfl
  refine h.set hset (fun other hother => ?_) ?_ (fun uuid => ?_) (fun key => ?_) fun other => ?_
  · rcases mem_append.mp hother with hother | hother
    · exact h.owned _ other hother
    · rw [mem_singleton.mp hother]
  · show (if s.queue job.uuid = [] then s.rotation ++ [job.uuid] else s.rotation).Nodup
    split_ifs with hempty
    · rw [← concat_eq_append]
      exact h.once.concat fun hmem => (h.turn _).mp hmem hempty
    · exact h.once
  · show uuid ∈ (if s.queue job.uuid = [] then s.rotation ++ [job.uuid] else s.rotation) ↔ _
    split_ifs with hempty hsame hsame
    · simp [hsame]
    · simp [hsame]
    · simp [hsame, h.turn, hempty]
    · exact Iff.rfl
  · have hcount := countP_set hset (readsKey key)
    rw [countP_append] at hcount
    convert hkeys key using 1
    show _ + s.running.countP (readsKey key) = _
    omega
  · show (s.accepted ++ [job]).count other + _ + _ + _ = _ + _ + s.started.count other + s.cancelled.count other
    rw [count_append, count_append]
    omega

theorem enqueueRefresh_cases (job : RefreshJob) (now : ℕ) : (s.enqueueRefresh job now).1 = s ∨
    job.key ∉ s.keys ∧
      (s.enqueueRefresh job now).1 = { s.queueJob job with keys := insert job.key s.keys } := by
  unfold RefreshQueue.enqueueRefresh
  by_cases hstopping : s.stopping = true
  · rw [if_pos hstopping]
    exact .inl rfl
  by_cases hkey : job.key ∈ s.keys
  · rw [if_neg hstopping, if_pos hkey]
    exact .inl rfl
  rw [if_neg hstopping, if_neg hkey]
  split
  · exact .inl rfl
  split_ifs with hfull
  · have hput : ∀ uuid, (s.queues.put job.uuid (s.queue job.uuid)).find uuid = s.queues.find uuid := by
      intro uuid
      rw [OrderedMap.find_put]
      split_ifs with hsame
      · rw [hsame]
        revert hfull
        rw [queue]
        cases s.queues.find job.uuid with
        | none => exact fun hfull => absurd hfull (by decide)
        | some jobs => exact fun _ => rfl
      · rfl
    rw [OrderedMap.ext_find hput]
    exact .inl rfl
  · exact .inr ⟨hkey, rfl⟩

theorem jobDone_cases (index : ℕ) (changed : Bool) (now : ℕ) : s.jobDone index changed now = s ∨
    ∃ hindex : index < s.running.length, ∃ results, s.jobDone index changed now = { s with
      keys := s.keys.erase s.running[index].key
      running := s.running.eraseIdx index
      results := results } := by
  unfold RefreshQueue.jobDone
  cases hjob : s.running[index]? with
  | none => exact .inl rfl
  | some job =>
    obtain ⟨hindex, rfl⟩ := List.getElem?_eq_some_iff.mp hjob
    refine .inr ⟨hindex, ?_⟩
    dsimp only
    split_ifs <;> exact ⟨_, rfl⟩

theorem Sound.enqueueRefresh (h : Sound s) (job : {job : RefreshJob // job.reads = true}) (now : ℕ) :
    Sound (s.enqueueRefresh job now).1 := by
  obtain ⟨job, hjob⟩ := job
  rcases enqueueRefresh_cases (s := s) job now with hsame | ⟨hkey, hqueued⟩
  · rw [hsame]
    exact h
  · rw [hqueued]
    refine h.queueJob job fun key => ?_
    obtain ⟨hone, hnone⟩ := h.keys key
    rw [countP_singleton, readsKey, hjob, Bool.true_and]
    simp only [decide_eq_true_eq]
    by_cases hsame : job.key = key
    · subst hsame
      rw [if_pos rfl, hnone hkey]
      exact ⟨fun _ => rfl, fun hnot => absurd (Finset.mem_insert_self _ _) hnot⟩
    · rw [if_neg hsame]
      refine ⟨fun hmem => hone ?_, fun hnot => hnone fun hmem => hnot (Finset.mem_insert_of_mem hmem)⟩
      exact Finset.mem_of_mem_insert_of_ne hmem (Ne.symm hsame)

theorem Sound.evicted (h : Sound s) (job : {job : RefreshJob // job.reads = false}) :
    Sound (s.queueJob job) := by
  refine h.queueJob job.1 fun key => ?_
  rw [countP_singleton, readsKey, job.2]
  exact h.keys key

theorem takeJob_eq {uuid : List Char} {rotation : List (List Char)} {job : RefreshJob}
    (hrotation : s.rotation = uuid :: rotation) (hqueue : s.queue uuid = job :: jobs) :
    s.takeJob = { s with
      rotation := if jobs = [] then rotation else rotation ++ [uuid]
      queues := setQueue s.queues uuid jobs
      running := s.running ++ [job]
      started := s.started ++ [job] } := by
  have hfind : s.queues.find uuid = some (job :: jobs) := by
    revert hqueue
    rw [queue]
    cases s.queues.find uuid with
    | none => exact nofun
    | some waiting => exact congrArg some
  simp only [RefreshQueue.takeJob, hrotation, hfind, setQueue]

theorem Sound.takeJob (h : Sound s) : Sound s.takeJob := by
  cases hrotation : s.rotation with
  | nil =>
    rw [show s.takeJob = s by rw [RefreshQueue.takeJob, hrotation]]
    exact h
  | cons uuid rotation =>
    have honce := h.once
    rw [hrotation, nodup_cons] at honce
    obtain ⟨job, jobs, hqueue⟩ := exists_cons_of_ne_nil
      ((h.turn uuid).mp (hrotation ▸ mem_cons_self))
    rw [takeJob_eq hrotation hqueue]
    refine h.set rfl (fun other hother => ?_) ?_ (fun other => ?_) (fun key => ?_) fun other => ?_
    · exact h.owned uuid other (hqueue ▸ mem_cons_of_mem _ hother)
    · split_ifs
      · exact honce.2
      · rw [← concat_eq_append]
        exact honce.2.concat honce.1
    · rw [hrotation]
      by_cases hsame : other = uuid
      · rw [hsame, if_pos rfl]
        split_ifs with hjobs <;> simp [hjobs, honce.1]
      · rw [if_neg hsame]
        split_ifs <;> simp [hsame]
    · have hcount := countP_set (t := { s with queues := setQueue s.queues uuid jobs }) rfl (readsKey key)
      rw [hqueue, countP_cons] at hcount
      convert h.keys key using 1
      show ({ s with queues := setQueue s.queues uuid jobs } : RefreshQueue).queued.countP (readsKey key) +
        (s.running ++ [job]).countP (readsKey key) = _
      rw [countP_append, countP_singleton]
      omega
    · rw [hqueue, count_append, count_cons, count_singleton]
      dsimp only
      omega

theorem Sound.jobDone (h : Sound s) (index : ℕ) (changed : Bool) (now : ℕ) :
    Sound (s.jobDone index changed now) := by
  rcases jobDone_cases (s := s) index changed now with hsame | ⟨hindex, results, hdone⟩
  · rw [hsame]
    exact h
  · rw [hdone]
    generalize hget : s.running[index] = job
    refine ⟨h.once, h.turn, h.filled, h.owned, fun key => ?_, h.counted⟩
    have hcount := (getElem_cons_eraseIdx_perm hindex).countP_eq (readsKey key)
    rw [hget, countP_cons] at hcount
    obtain ⟨hone, hnone⟩ := h.keys key
    show Once (s.keys.erase job.key) key
      (s.queued.countP (readsKey key) + (s.running.eraseIdx index).countP (readsKey key))
    by_cases hsame : job.key = key
    · subst hsame
      refine ⟨fun hmem => absurd hmem (Finset.notMem_erase _ _), fun _ => ?_⟩
      by_cases hmem : job.key ∈ s.keys
      · -- it is a read, and the only one with its key
        have hreads : job.reads = true := by
          by_contra hevict
          exact h.evict_not_mem (by simpa using hevict) hmem
        rw [readsKey, hreads] at hcount
        have hheld := hone hmem
        simp at hcount
        omega
      · have hheld := hnone hmem
        omega
    · have hother : readsKey key job = false := by simp [readsKey, hsame]
      rw [hother, if_neg (by decide), Nat.add_zero] at hcount
      rw [hcount]
      refine ⟨fun hmem => hone (Finset.mem_of_mem_erase hmem), fun hnot => hnone fun hmem => ?_⟩
      exact hnot (Finset.mem_erase_of_ne_of_mem (Ne.symm hsame) hmem)
theorem Sound.cancelAccount (h : Sound s) (uuid : List Char) : Sound (s.cancelAccount uuid) := by
  have hset : (s.cancelAccount uuid).queues = setQueue s.queues uuid [] := rfl
  refine h.set hset nofun (h.once.filter _) (fun other => ?_) (fun key => ?_) fun job => ?_
  · show other ∈ s.rotation.filter _ ↔ _
    by_cases hsame : other = uuid <;> simp [hsame]
  · have hcount := countP_set hset (readsKey key)
    have hmem : key ∈ (s.cancelAccount uuid).keys ↔
        key ∈ s.keys ∧ key ∉ (s.queue uuid).map RefreshJob.key := by
      simp [RefreshQueue.cancelAccount]
    obtain ⟨hone, hnone⟩ := h.keys key
    rw [Once, hmem, show (s.cancelAccount uuid).running = s.running from rfl]
    rw [countP_nil] at hcount
    by_cases hread : ∃ job ∈ s.queue uuid, readsKey key job = true
    · -- the read of the key is thrown away, and so is the key
      obtain ⟨job, hjob, hkey⟩ := hread
      have hpos : 0 < (s.queue uuid).countP (readsKey key) := countP_pos_iff.mpr ⟨job, hjob, hkey⟩
      simp only [readsKey, Bool.and_eq_true, decide_eq_true_eq] at hkey
      refine ⟨fun hkept => absurd (mem_map.mpr ⟨job, hjob, hkey.2⟩) hkept.2, fun _ => ?_⟩
      by_cases hheld : key ∈ s.keys
      · have := hone hheld
        omega
      · have := hnone hheld
        omega
    · rw [countP_eq_zero.mpr fun job hjob hkey => hread ⟨job, hjob, hkey⟩] at hcount
      rw [show (s.cancelAccount uuid).queued.countP (readsKey key) = _ from hcount]
      refine ⟨fun hkept => hone hkept.1, fun hgone => hnone fun hheld => hgone ⟨hheld, fun hkey => ?_⟩⟩
      obtain ⟨job, hjob, rfl⟩ := mem_map.mp hkey
      refine @Sound.evict_not_mem s h job ?_ hheld
      by_contra hreads
      rw [Bool.not_eq_false] at hreads
      exact hread ⟨job, hjob, by simp [readsKey, hreads]⟩
  · show s.accepted.count job + _ + _ + _ = _ + _ + s.started.count job + (s.cancelled ++ s.queue uuid).count job
    rw [count_append, count_nil]
    omega

theorem sound_step (h : Sound s) (e : RefreshEvent) : Sound (s.step e) := by
  cases e with
  | start | stop => exact { h with }
  | enqueue job now => exact h.enqueueRefresh job now
  | queueJob job => exact h.evicted job
  | take => exact h.takeJob
  | done index changed now => exact h.jobDone index changed now
  | cancel uuid => exact h.cancelAccount uuid

theorem sound_run (events : List RefreshEvent) : Sound (events.foldl step {}) := by
  refine List.foldlRecOn events step ?_ fun s h e _ => sound_step h e
  exact ⟨nodup_nil, fun _ => by simp [queue, OrderedMap.find], fun _ => by simp [OrderedMap.find],
    fun _ job hjob => by simp [queue, OrderedMap.find] at hjob,
    fun _ => ⟨fun hmem => absurd hmem (Finset.notMem_empty _), fun _ => rfl⟩, fun _ => rfl⟩

theorem countP_held (key : List Char) : s.held.countP (fun job => job.key = key) =
    s.queued.countP (readsKey key) + s.running.countP (readsKey key) := by
  have hreads : readsKey key = fun job => decide (job.key = key) && job.reads :=
    funext fun job => Bool.and_comm _ _
  rw [held, countP_filter, countP_append, hreads]

theorem Sound.mem_keys_iff (h : Sound s) (key : List Char) :
    key ∈ s.keys ↔ ∃ job ∈ s.held, job.key = key := by
  obtain ⟨hone, hnone⟩ := h.keys key
  rw [← countP_held] at hone hnone
  constructor
  · intro hmem
    have hpos : 0 < s.held.countP fun job => job.key = key := by rw [hone hmem]; exact Nat.one_pos
    simpa using countP_pos_iff.mp hpos
  · rintro ⟨job, hjob, hkey⟩
    by_contra hnot
    exact countP_eq_zero.mp (hnone hnot) job hjob (decide_eq_true hkey)

theorem Sound.bookkept (h : Sound s) : Bookkept s := by
  refine ⟨h.once, h.turn, h.filled, h.mem_keys_iff, nodup_iff_count_le_one.mpr fun key => ?_,
    fun job now hfree => ?_, h.counted⟩
  · have hcount : (s.held.map RefreshJob.key).count key = s.held.countP fun job => job.key = key := by
      rw [List.count, countP_map]
      exact countP_congr fun job _ => by simp
    obtain ⟨hone, hnone⟩ := h.keys key
    rw [hcount, countP_held]
    by_cases hmem : key ∈ s.keys
    · exact (hone hmem).le
    · exact (hnone hmem).le.trans (Nat.zero_le 1)
  · have hkey : job.key ∉ s.keys := fun hmem => by
      obtain ⟨other, hother, hsame⟩ := (h.mem_keys_iff _).mp hmem
      exact hfree other hother hsame
    unfold RefreshQueue.enqueueRefresh
    by_cases hstopping : s.stopping = true
    · rw [if_pos hstopping]
      exact nofun
    rw [if_neg hstopping, if_neg hkey]
    split
    · rename_i outcome _
      rcases outcome.ended with hstate | hstate <;> rw [hstate] <;> exact nofun
    · split <;> exact nofun

theorem cancelled_step (h : Sound s) (e : RefreshEvent) :
    ∀ job ∈ (s.step e).cancelled, job ∈ s.cancelled ∨ e = .cancel job.uuid := by
  intro job hjob
  cases e with
  | start | stop => exact .inl hjob
  | enqueue job now =>
    rcases enqueueRefresh_cases (s := s) job.1 now with hsame | ⟨-, hqueued⟩
    · exact .inl (hsame ▸ hjob)
    · rw [step, hqueued] at hjob
      exact .inl hjob
  | queueJob job => exact .inl hjob
  | take =>
    refine .inl ?_
    revert hjob
    simp only [step, RefreshQueue.takeJob]
    repeat' split
    all_goals exact id
  | done index changed now =>
    rcases jobDone_cases (s := s) index changed now with hsame | ⟨hindex, results, hdone⟩
    · exact .inl (hsame ▸ hjob)
    · rw [step, hdone] at hjob
      exact .inl hjob
  | cancel uuid =>
    rcases mem_append.mp hjob with hjob | hjob
    · exact .inl hjob
    · exact .inr (congrArg _ (h.owned uuid job hjob).symm)

/-! ### Each job has its turn -/

/-- The place of a job: how many jobs of its account come before it, and how many accounts. -/
def Ahead (s : RefreshQueue) (job : RefreshJob) (place : ℕ ×ₗ ℕ) : Prop :=
  ∃ jobs rest accounts others, s.queue job.uuid = jobs ++ job :: rest ∧
    s.rotation = accounts ++ job.uuid :: others ∧ place = toLex (jobs.length, accounts.length)

/-- The job is taken or cancelled. -/
def Comes (s : RefreshQueue) (job : RefreshJob) (e : RefreshEvent) : Prop :=
  e = .cancel job.uuid ∨ e = .take ∧ s.takeJob.started = s.started ++ [job]

theorem Sound.ahead (h : Sound s) {job : RefreshJob} (hjob : job ∈ s.queue job.uuid) :
    ∃ place, Ahead s job place := by
  obtain ⟨jobs, rest, hqueue⟩ := append_of_mem hjob
  obtain ⟨accounts, others, hrotation⟩ :=
    append_of_mem ((h.turn job.uuid).mpr (ne_nil_of_mem hjob))
  exact ⟨_, jobs, rest, accounts, others, hqueue, hrotation, rfl⟩

variable {place : ℕ ×ₗ ℕ}

theorem ahead_queueJob {job : RefreshJob} (hahead : Ahead s job place)
    (other : RefreshJob) (keys : Finset (List Char)) :
    Ahead { s.queueJob other with keys := keys } job place := by
  obtain ⟨jobs, rest, accounts, others, hqueue, hrotation, rfl⟩ := hahead
  have hset : ({ s.queueJob other with keys := keys } : RefreshQueue).queues =
      setQueue s.queues other.uuid (s.queue other.uuid ++ [other]) := by
    rw [setQueue, if_neg (by simp)]
    rfl
  refine ⟨jobs, rest ++ if job.uuid = other.uuid then [other] else [], accounts,
    others ++ if s.queue other.uuid = [] then [other.uuid] else [], ?_, ?_, rfl⟩
  · rw [queue_set hset]
    split_ifs with hsame
    · rw [← hsame, hqueue, append_assoc, cons_append]
    · rw [hqueue, append_nil]
  · show (if s.queue other.uuid = [] then s.rotation ++ [other.uuid] else s.rotation) = _
    split_ifs
    · rw [hrotation, append_assoc, cons_append]
    · rw [hrotation, append_nil]

theorem Sound.ahead_take (h : Sound s) {job : RefreshJob} (hahead : Ahead s job place) :
    s.takeJob.started = s.started ++ [job] ∨ ∃ nearer < place, Ahead s.takeJob job nearer := by
  obtain ⟨jobs, rest, accounts, others, hqueue, hrotation, rfl⟩ := hahead
  cases accounts with
  | nil =>
    -- it is the turn of its account
    cases jobs with
    | nil => exact .inl (by rw [takeJob_eq hrotation hqueue])
    | cons first jobs =>
      rw [takeJob_eq hrotation hqueue]
      refine .inr ⟨toLex (jobs.length, others.length), ?_, jobs, rest, others, [], ?_, ?_, rfl⟩
      · rw [Prod.Lex.toLex_lt_toLex]
        exact .inl (Nat.lt_succ_self _)
      · rw [queue_set rfl, if_pos rfl]
        rfl
      · exact if_neg (by simp)
  | cons account accounts =>
    have honce := hrotation ▸ h.once
    have hne : job.uuid ≠ account := by
      rintro rfl
      exact (nodup_cons.mp honce).1 (mem_append_right _ mem_cons_self)
    obtain ⟨first, more, hfirst⟩ := exists_cons_of_ne_nil
      ((h.turn account).mp (hrotation ▸ mem_cons_self))
    rw [takeJob_eq hrotation hfirst]
    refine .inr ⟨toLex (jobs.length, accounts.length), ?_, jobs, rest, accounts,
      others ++ if more = [] then [] else [account], ?_, ?_, rfl⟩
    · rw [Prod.Lex.toLex_lt_toLex]
      exact .inr ⟨rfl, Nat.lt_succ_self _⟩
    · rw [queue_set rfl, if_neg hne, hqueue]
    · split_ifs <;> simp

theorem Sound.ahead_step (h : Sound s) {job : RefreshJob} (hahead : Ahead s job place)
    (e : RefreshEvent) : Comes s job e ∨ ∃ nearer ≤ place, Ahead (s.step e) job nearer := by
  have hsame := hahead
  obtain ⟨jobs, rest, accounts, others, hqueue, hrotation, rfl⟩ := hsame
  cases e with
  | start | stop => exact .inr ⟨_, le_rfl, jobs, rest, accounts, others, hqueue, hrotation, rfl⟩
  | enqueue other now =>
    refine .inr ⟨_, le_rfl, ?_⟩
    rcases enqueueRefresh_cases (s := s) other.1 now with hsame | ⟨-, hqueued⟩
    · rw [step, hsame]
      exact hahead
    · rw [step, hqueued]
      exact ahead_queueJob hahead other.1 _
  | queueJob other => exact .inr ⟨_, le_rfl, ahead_queueJob hahead other.1 s.keys⟩
  | take =>
    rcases h.ahead_take hahead with htaken | ⟨nearer, hlt, hnearer⟩
    · exact .inl (.inr ⟨rfl, htaken⟩)
    · exact .inr ⟨nearer, hlt.le, hnearer⟩
  | done index changed now =>
    refine .inr ⟨_, le_rfl, jobs, rest, accounts, others, ?_⟩
    rcases jobDone_cases (s := s) index changed now with hsame | ⟨hindex, results, hdone⟩
    · rw [step, hsame]
      exact ⟨hqueue, hrotation, rfl⟩
    · rw [step, hdone]
      exact ⟨hqueue, hrotation, rfl⟩
  | cancel uuid =>
    by_cases huuid : job.uuid = uuid
    · exact .inl (.inl (congrArg _ huuid.symm))
    · refine .inr ⟨toLex (jobs.length, (accounts.filter (· ≠ uuid)).length), ?_, jobs, rest, _,
        others.filter (· ≠ uuid), ?_, ?_, rfl⟩
      · rw [Prod.Lex.toLex_le_toLex]
        exact .inr ⟨rfl, length_filter_le _ _⟩
      · rw [step, @queue_set s (s.cancelAccount uuid) uuid [] rfl, if_neg huuid, hqueue]
      · show s.rotation.filter _ = _
        rw [hrotation, filter_append, filter_cons_of_pos (by simpa using huuid)]

end Steps

/-- **Each job has its turn.** If jobs are taken again and again, a job that is queued is taken, unless its
account is cancelled before. -/
theorem taken_of_trace {es : ℕ → RefreshEvent} (htakes : ∀ n, ∃ m, n ≤ m ∧ es m = .take) {n : ℕ}
    {job : RefreshJob} (hjob : job ∈ (trace step {} es n).queue job.uuid) :
    ∃ m, n ≤ m ∧ Comes (trace step {} es m) job (es m) := by
  have hsound : ∀ n, Sound (trace step {} es n) := fun n => by
    rw [trace_eq_foldl]
    exact sound_run _
  obtain ⟨place, hplace⟩ := (hsound n).ahead hjob
  have hstep : ∀ n place, Ahead (trace step {} es n) job place → Comes (trace step {} es n) job (es n) ∨
      ∃ nearer ≤ place, Ahead (trace step {} es (n + 1)) job nearer :=
    fun n place hahead => (hsound n).ahead_step hahead (es n)
  refine leads_to htakes hstep (fun n place htake hahead => ?_) hplace
  rcases (hsound n).ahead_take hahead with htaken | hnearer
  · exact .inl (.inr ⟨htake, htaken⟩)
  · refine .inr ?_
    rw [trace, htake]
    exact hnearer

/-- **The books of the refreshes.** They are right in every run; only the jobs of an account that is
cancelled are thrown away; and every other job has its turn, if jobs are taken again and again. -/
theorem refreshes_kept :
    (∀ events : List RefreshEvent, Bookkept (events.foldl step {}) ∧
      ∀ job ∈ (events.foldl step {}).cancelled, .cancel job.uuid ∈ events) ∧
    ∀ es : ℕ → RefreshEvent, (∀ n, ∃ m, n ≤ m ∧ es m = .take) → ∀ n job,
      job ∈ (trace step {} es n).queue job.uuid → ∃ m, n ≤ m ∧ Comes (trace step {} es m) job (es m) := by
  refine ⟨fun events => ⟨(sound_run events).bookkept, ?_⟩, fun es htakes n job => taken_of_trace htakes⟩
  induction events using List.reverseRecOn with
  | nil => exact nofun
  | append_singleton events e ih =>
    intro job hjob
    rw [List.foldl_append] at hjob
    rw [List.mem_append, List.mem_singleton]
    exact (cancelled_step (sound_run events) e job hjob).imp (ih job) Eq.symm

def evictionOf (uuid file : List Char) : {job : RefreshJob // job.reads = false} :=
  ⟨⟨.evict, uuid, evictKey ++ file, [], List.isPrefixOf_iff_prefix.mpr (prefix_append _ _)⟩, rfl⟩

/-- The eviction of a file that is evicted again is queued again, with the key it had. -/
theorem eviction_twice :
    ¬ ((([.queueJob (evictionOf ['a'] ['f']), .queueJob (evictionOf ['a'] ['f'])].foldl step
      {} : RefreshQueue).queued.map RefreshJob.key).Nodup) := by
  decide

end RefreshQueue

end Runtime
