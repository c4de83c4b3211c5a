import TeleBezel.Lib.OrderedMap
import TeleBezel.Lib.Transition
import TeleBezel.Runtime.ReadFence

/-!
# Previews of media

`ReadModelService::media` of `backend-tdlib/src/media_sources.cpp` has TDLib download files, and keeps
an entry for each. The bytes that downloads may take and the bytes that are on disk are kept as running
sums, which together are not to exceed a limit. A call asks TDLib between the section that reserves and
the one that gives the reservation back.
-/

namespace Runtime

open Transition

/-- `MediaEntry::State`. -/
inductive PreviewState
  | downloading
  | ready
  | failed
deriving DecidableEq

structure MediaEntry where
  state : PreviewState := .downloading
  uuid : Uuid
  generation : ℕ
  epoch : ℕ
  authorizationGeneration : ℕ
  client : ℕ
  fileId : ℕ
  reserved : ℕ := 0
  readyBytes : ℕ := 0
  attempts : ℕ := 0
  retryAt : ℕ := 0
  usedAt : ℕ := 0

/-- The limits, as `Config` accepts them. -/
structure PreviewConfig where
  maxBytes : ℕ
  totalBytes : ℕ
  failureTtl : ℕ
  max_le : maxBytes ≤ totalBytes
  total_le : totalBytes ≤ 1000000000

def mediaMaxAttempts : ℕ := 4

def mediaEntriesRetained : ℕ := 4096

/-- `media_abandoned`, in seconds. -/
def mediaAbandoned : ℕ := 30

/-- The range of `size_t`. -/
def sizeRange : ℕ := 2 ^ 64

/-- Addition of `size_t`. -/
def sizeAdd (a b : ℕ) : ℕ := (a + b) % sizeRange

/-- Subtraction of `size_t`. -/
def sizeSub (a b : ℕ) : ℕ := (a + (sizeRange - b % sizeRange)) % sizeRange

/-- The entries, and the running sums. The last two fields are the files that TDLib is to delete, and
the calls that wait for TDLib to begin a download. -/
structure Previews (κ : Type) [LinearOrder κ] where
  entries : OrderedMap κ MediaEntry := {}
  reservedBytes : ℕ := 0
  cacheBytes : ℕ := 0
  evictions : List (κ × MediaEntry) := []
  waiting : List κ := []

namespace Previews

variable {κ : Type} [LinearOrder κ] (config : PreviewConfig) (s : Previews κ)

def dropMedia (key : κ) : Previews κ :=
  match s.entries.find key with
  | none => s
  | some entry =>
    { s with
      reservedBytes := sizeSub s.reservedBytes entry.reserved
      cacheBytes := sizeSub s.cacheBytes entry.readyBytes
      entries := s.entries.erase key }

def evictMedia (key : κ) (entry : MediaEntry) : Previews κ :=
  { s.dropMedia key with evictions := s.evictions ++ [(key, entry)] }

def invalidateMedia (key : κ) : Previews κ :=
  match s.entries.find key with
  | some entry => if entry.state = .ready then s.dropMedia key else s
  | none => s

def releaseMedia (key : κ) (ready : Bool) (bytes now : ℕ) : Previews κ :=
  match s.entries.find key with
  | none => s
  | some entry =>
    let s := { s with reservedBytes := sizeSub s.reservedBytes entry.reserved }
    if ready then
      { s with
        cacheBytes := sizeAdd s.cacheBytes bytes
        entries := s.entries.put key
          { entry with
            reserved := 0
            state := .ready
            readyBytes := bytes
            usedAt := now
            attempts := 0 } }
    else
      { s with
        entries := s.entries.put key
          { entry with
            reserved := 0
            state := .failed
            readyBytes := 0
            attempts := entry.attempts + 1
            retryAt := now + min (2 ^ min (entry.attempts + 1) 5) config.failureTtl } }

/-- The condition of the first loop of `trim_media_entries`. -/
def outdated (now : ℕ) (uuid : Uuid) (fence : ReadFence) (entry : MediaEntry) : Bool :=
  (entry.uuid = uuid && (entry.generation ≠ fence.generation || entry.epoch ≠ fence.epoch ||
      entry.authorizationGeneration ≠ fence.authorizationGeneration)) ||
    (entry.state = .downloading && entry.usedAt + mediaAbandoned ≤ now) ||
    (entry.state = .failed && entry.retryAt + config.failureTtl ≤ now)

/-- The second loop of `trim_media_entries`. It ends, for each turn drops an entry. -/
def trimCount : ℕ → Previews κ → Previews κ
  | 0, s => s
  | turns + 1, s =>
    if s.entries.entries.length < mediaEntriesRetained then s
    else
      match s.entries.victim (fun entry => entry.2.state ≠ .downloading) MediaEntry.usedAt with
      | none => s
      | some victim => trimCount turns (s.dropMedia victim.1)

def trimMediaEntries (now : ℕ) (uuid : Uuid) (fence : ReadFence) : Previews κ :=
  let s := s.entries.entries.foldl
    (fun s entry =>
      if outdated config now uuid fence entry.2 then
        if entry.2.state = .failed then s.dropMedia entry.1 else s.evictMedia entry.1 entry.2
      else s) s
  trimCount s.entries.entries.length s

/-- The loop of `reserve_media`: whether there is room in the end. It ends, for each turn drops an
entry. -/
def makeRoom (key : κ) (size : ℕ) : ℕ → Previews κ → Previews κ × Bool
  | 0, s => (s, false)
  | turns + 1, s =>
    if sizeAdd (sizeAdd s.reservedBytes s.cacheBytes) size ≤ config.totalBytes then (s, true)
    else
      match s.entries.victim (fun entry => entry.1 ≠ key && entry.2.state = .ready)
        MediaEntry.usedAt with
      | none => (s, false)
      | some victim => makeRoom key size turns (s.evictMedia victim.1 victim.2)

def reserveMedia (key : κ) (uuid : Uuid) (fence : ReadFence) (fileId size now : ℕ) :
    Previews κ × Bool :=
  if size = 0 || config.maxBytes < size || config.totalBytes < size then (s, false)
  else
    match makeRoom config key size (s.entries.entries.length + 1) s with
    | (s, false) => (s, false)
    | (s, true) =>
      let attempts := (s.entries.find key).elim 0 MediaEntry.attempts
      let s := s.dropMedia key
      ({ s with
          entries := s.entries.put key
            { uuid
              generation := fence.generation
              epoch := fence.epoch
              authorizationGeneration := fence.authorizationGeneration
              client := fence.client
              fileId
              state := .downloading
              reserved := size
              attempts
              usedAt := now }
          reservedBytes := sizeAdd s.reservedBytes size }, true)

end Previews

/-- What a call of `media` brings to its section: the file, its declared size, and what TDLib says of it
at the moment: its size if it is complete, or whether it is being downloaded. -/
structure MediaCall (κ : Type) where
  key : κ
  uuid : Uuid
  fence : ReadFence
  fileId : ℕ
  declared : ℕ
  completed : Option ℕ
  active : Bool

namespace Previews

variable {κ : Type} [LinearOrder κ] (config : PreviewConfig) (s : Previews κ)

def touch (key : κ) (now : ℕ) : Previews κ :=
  match s.entries.find key with
  | none => s
  | some entry => { s with entries := s.entries.put key { entry with usedAt := now } }

variable (call : MediaCall κ)

def completeMedia (size now : ℕ) : Previews κ :=
  let s := if (s.entries.find call.key).isNone then
      (s.reserveMedia config call.key call.uuid call.fence call.fileId size now).1
    else s
  match s.entries.find call.key with
  | none => s
  | some entry =>
    (if entry.state = .ready then s else s.releaseMedia config call.key true size now).touch call.key now

def resting (now : ℕ) (entry : MediaEntry) : Bool :=
  entry.state = .failed && (mediaMaxAttempts ≤ entry.attempts || now < entry.retryAt)

def abandonMedia (key : κ) (now : ℕ) : Previews κ :=
  match s.entries.find key with
  | some entry => if entry.state = .downloading then s.releaseMedia config key false 0 now else s
  | none => s

def startMedia (now : ℕ) : Previews κ :=
  let s := s.abandonMedia config call.key now
  if (s.entries.find call.key).any (resting now) then s
  else
    match s.reserveMedia config call.key call.uuid call.fence call.fileId call.declared now with
    | (s, true) => { s with waiting := s.waiting ++ [call.key] }
    | (s, false) => s

def mediaSection (now : ℕ) : Previews κ :=
  let s := s.trimMediaEntries config now call.uuid call.fence
  match call.completed with
  | some size => s.completeMedia config call size now
  | none =>
    if (s.entries.find call.key).any (fun entry => entry.state = .downloading) && call.active then
      s.touch call.key now
    else s.startMedia config call now

/-- The part of `cancel_account` for media. -/
def cancelAccount (uuid : Uuid) : Previews κ :=
  s.entries.entries.foldl
    (fun s entry => if entry.2.uuid = uuid then s.dropMedia entry.1 else s) s

end Previews

/-- All that can happen: the section of a call, the answer of TDLib to `downloadFile` (the download is
begun, or there is none), a file that could not be read, and an account that is cancelled. -/
inductive PreviewEvent (κ : Type)
  | section (call : MediaCall κ) (now : ℕ)
  | begun (key : κ)
  | refused (key : κ) (now : ℕ)
  | invalidate (key : κ)
  | cancelAccount (uuid : Uuid)

namespace Previews

variable {κ : Type} [LinearOrder κ] (config : PreviewConfig) (s : Previews κ)

def step : PreviewEvent κ → Previews κ
  | .section call now => s.mediaSection config call now
  | .begun key => { s with waiting := s.waiting.erase key }
  | .refused key now =>
    if key ∈ s.waiting then
      { s with waiting := s.waiting.erase key }.releaseMedia config key false 0 now
    else s
  | .invalidate key => s.invalidateMedia key
  | .cancelAccount uuid => s.cancelAccount uuid

/-- The condition on a step: a call that gets no download finds its file not complete, and a file that
is complete and has an entry, not yet noted as complete, fits in the place of its reservation. -/
def Careful : PreviewEvent κ → Prop
  | .refused key _ => key ∈ s.waiting → ∀ entry ∈ s.entries.find key, entry.state ≠ .ready
  | .section call now => ∀ size ∈ call.completed,
      let s := s.trimMediaEntries config now call.uuid call.fence
      ∀ entry ∈ s.entries.find call.key, entry.state ≠ .ready →
        s.reservedBytes - entry.reserved + s.cacheBytes + size ≤ config.totalBytes
  | _ => True

/-- An entry that is ready reserves nothing, one that failed has no bytes, and one that is being
downloaded has none yet. -/
def Shaped (entry : MediaEntry) : Prop :=
  match entry.state with
  | .downloading => entry.readyBytes = 0
  | .ready => entry.reserved = 0
  | .failed => entry.reserved = 0 ∧ entry.readyBytes = 0

structure Exact : Prop where
  reserved : s.reservedBytes = s.entries.total MediaEntry.reserved
  cache : s.cacheBytes = s.entries.total MediaEntry.readyBytes
  bounded : s.reservedBytes + s.cacheBytes ≤ config.totalBytes

end Previews

/-! ## What the sections are made of -/

section Parts

variable {κ : Type} [LinearOrder κ] {config : PreviewConfig} {s : Previews κ}

theorem sizeAdd_eq {a b : ℕ} (h : a + b < sizeRange) : sizeAdd a b = a + b := Nat.mod_eq_of_lt h

theorem sizeSub_eq {a b : ℕ} (hle : b ≤ a) (hlt : a < sizeRange) : sizeSub a b = a - b := by
  have hb : b % sizeRange = b := Nat.mod_eq_of_lt (hle.trans_lt hlt)
  have hsum : a + (sizeRange - b) = (a - b) + sizeRange := by omega
  rw [sizeSub, hb, hsum, Nat.add_mod_right, Nat.mod_eq_of_lt (by omega)]

namespace Previews

structure Sound (config : PreviewConfig) (s : Previews κ) : Prop extends Exact config s where
  shaped : ∀ entry ∈ s.entries.entries, Shaped entry.2

theorem sound_start : Sound config ({} : Previews κ) where
  reserved := rfl
  cache := rfl
  bounded := Nat.zero_le _
  shaped := nofun

theorem Exact.lt_range (h : Exact config s) :
    s.reservedBytes < sizeRange ∧ s.cacheBytes < sizeRange := by
  have hbounded := h.bounded
  have htotal := config.total_le
  unfold sizeRange
  omega

variable {entry : MediaEntry} {key : κ}

theorem Exact.of_find (h : Exact config s) (hfind : s.entries.find key = some entry) :
    (s.entries.erase key).total MediaEntry.reserved + entry.reserved = s.reservedBytes ∧
      (s.entries.erase key).total MediaEntry.readyBytes + entry.readyBytes = s.cacheBytes := by
  have hreserved := s.entries.total_erase key MediaEntry.reserved
  have hcache := s.entries.total_erase key MediaEntry.readyBytes
  rw [hfind] at hreserved hcache
  rw [h.reserved, h.cache]
  exact ⟨hreserved, hcache⟩

theorem Sound.find_shaped (h : Sound config s)
    (hfind : s.entries.find key = some entry) : Shaped entry :=
  h.shaped _ (OrderedMap.find_eq_some_iff.1 hfind)

theorem Sound.dropMedia (h : Sound config s) (key : κ) :
    Sound config (s.dropMedia key) ∧ (s.dropMedia key).reservedBytes ≤ s.reservedBytes ∧
      (s.dropMedia key).cacheBytes ≤ s.cacheBytes := by
  unfold Previews.dropMedia
  cases hfind : s.entries.find key with
  | none => exact ⟨h, le_rfl, le_rfl⟩
  | some entry =>
    obtain ⟨hreserved, hcache⟩ := h.toExact.of_find hfind
    obtain ⟨hlt, hlt'⟩ := h.toExact.lt_range
    have hbounded := h.bounded
    simp only []
    rw [sizeSub_eq (by omega) hlt, sizeSub_eq (by omega) hlt']
    refine ⟨⟨⟨?_, ?_, ?_⟩, ?_⟩, ?_, ?_⟩
    · dsimp only
      omega
    · dsimp only
      omega
    · dsimp only
      omega
    · exact fun entry hentry => h.shaped entry (List.mem_of_mem_filter hentry)
    · exact Nat.sub_le _ _
    · exact Nat.sub_le _ _

theorem Sound.evictMedia (h : Sound config s) (key : κ) (entry : MediaEntry) :
    Sound config (s.evictMedia key entry) := by
  obtain ⟨⟨⟨hreserved, hcache, hbounded⟩, hshaped⟩, -⟩ := h.dropMedia key
  exact ⟨⟨hreserved, hcache, hbounded⟩, hshaped⟩

theorem find_dropMedia (s : Previews κ) (key other : κ) :
    (s.dropMedia key).entries.find other =
      if other = key then none else s.entries.find other := by
  unfold Previews.dropMedia
  cases hfind : s.entries.find key with
  | none =>
    split_ifs with heq
    · rw [heq, hfind]
    · rfl
  | some entry => exact OrderedMap.find_erase key other

theorem Sound.put (h : Sound config s) (entry' : MediaEntry)
    (hfind : s.entries.find key = some entry) (hshaped : Shaped entry') {reserved cache : ℕ}
    (hreserved : reserved + entry.reserved = s.reservedBytes + entry'.reserved)
    (hcache : cache + entry.readyBytes = s.cacheBytes + entry'.readyBytes)
    (hbounded : reserved + cache ≤ config.totalBytes) :
    Sound config { s with
      entries := s.entries.put key entry', reservedBytes := reserved, cacheBytes := cache } := by
  obtain ⟨hreserved', hcache'⟩ := h.toExact.of_find hfind
  refine ⟨⟨?_, ?_, hbounded⟩, ?_⟩
  · dsimp only
    rw [OrderedMap.total_put]
    omega
  · dsimp only
    rw [OrderedMap.total_put]
    omega
  · intro other hother
    rcases OrderedMap.mem_put.1 hother with rfl | ⟨hmem, -⟩
    · exact hshaped
    · exact h.shaped other hmem

theorem readyBytes_of_shaped (h : Shaped entry) (hstate : entry.state ≠ .ready) :
    entry.readyBytes = 0 := by
  unfold Shaped at h
  cases hcase : entry.state with
  | downloading => rw [hcase] at h; exact h
  | ready => exact absurd hcase hstate
  | failed => rw [hcase] at h; exact h.2

section

variable (h : Sound config s)
include h

theorem Sound.release_ready
    (hfind : s.entries.find key = some entry) (hstate : entry.state ≠ .ready) {size : ℕ}
    (hfits : s.reservedBytes - entry.reserved + s.cacheBytes + size ≤ config.totalBytes) (now : ℕ) :
    Sound config (s.releaseMedia config key true size now) := by
  obtain ⟨hreserved, hcache⟩ := h.toExact.of_find hfind
  obtain ⟨hlt, hlt'⟩ := h.toExact.lt_range
  have hnone := readyBytes_of_shaped (h.find_shaped hfind) hstate
  have htotal := config.total_le
  unfold Previews.releaseMedia
  rw [hfind]
  simp only [if_true]
  rw [sizeSub_eq (by omega) hlt, sizeAdd_eq (by unfold sizeRange; omega)]
  refine h.put
    { entry with reserved := 0, state := .ready, readyBytes := size, usedAt := now, attempts := 0 } hfind
    rfl ?_ ?_ ?_
  · dsimp only
    omega
  · dsimp only
    omega
  · omega

theorem Sound.release_failed
    (hstate : ∀ entry ∈ s.entries.find key, entry.state ≠ .ready) (now : ℕ) :
    Sound config (s.releaseMedia config key false 0 now) := by
  unfold Previews.releaseMedia
  cases hfind : s.entries.find key with
  | none => exact h
  | some entry =>
    obtain ⟨hreserved, hcache⟩ := h.toExact.of_find hfind
    obtain ⟨hlt, -⟩ := h.toExact.lt_range
    have hnone := readyBytes_of_shaped (h.find_shaped hfind) (hstate entry hfind)
    have hbounded := h.bounded
    simp only [Bool.false_eq_true, if_false]
    rw [sizeSub_eq (by omega) hlt]
    refine h.put
      { entry with
        reserved := 0
        state := .failed
        readyBytes := 0
        attempts := entry.attempts + 1
        retryAt := now + min (2 ^ min (entry.attempts + 1) 5) config.failureTtl } hfind
      ⟨rfl, rfl⟩ ?_ ?_ ?_
    · dsimp only
      omega
    · dsimp only
      omega
    · omega

theorem Sound.touch (key : κ) (now : ℕ) : Sound config (s.touch key now) := by
  unfold Previews.touch
  cases hfind : s.entries.find key with
  | none => exact h
  | some entry =>
    have hshaped : Shaped entry := h.find_shaped hfind
    exact h.put { entry with usedAt := now } hfind hshaped rfl rfl h.bounded

theorem Sound.foldl (f : Previews κ → κ × MediaEntry → Previews κ)
    (hf : ∀ s entry, Sound config s → Sound config (f s entry)) (entries : List (κ × MediaEntry)) :
    Sound config (entries.foldl f s) := by
  induction entries generalizing s with
  | nil => exact h
  | cons entry entries ih => exact ih (hf s entry h)

theorem Sound.trimCount (turns : ℕ) : Sound config (trimCount turns s) := by
  induction turns generalizing s with
  | zero => exact h
  | succ turns ih =>
    rw [Previews.trimCount]
    split_ifs
    · exact h
    · split
      · exact h
      · exact ih (h.dropMedia _).1

theorem Sound.trimMediaEntries (now : ℕ) (uuid : Uuid) (fence : ReadFence) :
    Sound config (s.trimMediaEntries config now uuid fence) := by
  refine Sound.trimCount (h.foldl _ (fun s entry h => ?_) _) _
  split_ifs
  · exact (h.dropMedia _).1
  · exact h.evictMedia _ _
  · exact h

theorem Sound.cancelAccount (uuid : Uuid) : Sound config (s.cancelAccount uuid) := by
  refine h.foldl _ (fun s entry h => ?_) _
  split_ifs
  · exact (h.dropMedia _).1
  · exact h

theorem Sound.makeRoom (key : κ) {size : ℕ} (hsize : size ≤ config.totalBytes)
    (turns : ℕ) :
    let made := makeRoom config key size turns s
    Sound config made.1 ∧ (s.entries.find key = none → made.1.entries.find key = none) ∧
      (made.2 = true → made.1.reservedBytes + made.1.cacheBytes + size ≤ config.totalBytes) := by
  induction turns generalizing s with
  | zero => exact ⟨h, id, nofun⟩
  | succ turns ih =>
    intro made
    simp only [made, Previews.makeRoom]
    split_ifs with hroom
    · refine ⟨h, id, fun _ => ?_⟩
      have hbounded := h.bounded
      have htotal := config.total_le
      have hsum : sizeAdd s.reservedBytes s.cacheBytes = s.reservedBytes + s.cacheBytes :=
        sizeAdd_eq (by unfold sizeRange; omega)
      rwa [hsum, sizeAdd_eq (by unfold sizeRange; omega)] at hroom
    · split
      · exact ⟨h, id, nofun⟩
      · rename_i victim hvictim
        obtain ⟨hsound, hnone, hmade⟩ := ih (h.evictMedia victim.1 victim.2)
        refine ⟨hsound, fun hfind => hnone ?_, hmade⟩
        have hdrop := find_dropMedia s victim.1 key
        rw [hfind, ite_self] at hdrop
        exact hdrop

theorem Sound.reserveMedia (key : κ) (uuid : Uuid) (fence : ReadFence)
    (fileId size now : ℕ) :
    let made := s.reserveMedia config key uuid fence fileId size now
    Sound config made.1 ∧ (made.2 = false → s.entries.find key = none →
        made.1.entries.find key = none) ∧
      (made.2 = true → ∃ entry, made.1.entries.find key = some entry ∧
        entry.state = .downloading ∧ entry.reserved = size) := by
  intro made
  simp only [made, Previews.reserveMedia]
  split_ifs with hguard
  · exact ⟨h, fun _ => id, nofun⟩
  · simp only [Bool.or_eq_true, decide_eq_true_eq, not_or, not_lt] at hguard
    obtain ⟨hsound, hnone, hroom⟩ := h.makeRoom key hguard.2 (s.entries.entries.length + 1)
    generalize hmade : Previews.makeRoom config key size (s.entries.entries.length + 1) s = result
      at hsound hnone hroom
    obtain ⟨s', enough⟩ := result
    cases enough with
    | false => exact ⟨hsound, fun _ => hnone, nofun⟩
    | true =>
      have hroom' := hroom rfl
      have hsound' : Sound config s' := hsound
      obtain ⟨hdropped, hreserved, hcache⟩ := hsound'.dropMedia key
      have htotal := config.total_le
      have hfind : (s'.dropMedia key).entries.find key = none := by
        rw [find_dropMedia, if_pos rfl]
      have herase : ∀ f, ((s'.dropMedia key).entries.erase key).total f =
          (s'.dropMedia key).entries.total f := by
        intro f
        have := (s'.dropMedia key).entries.total_erase key f
        rw [hfind] at this
        exact this
      simp only at hroom'
      have hadd : sizeAdd (s'.dropMedia key).reservedBytes size =
          (s'.dropMedia key).reservedBytes + size :=
        sizeAdd_eq (by unfold sizeRange; omega)
      dsimp only
      rw [hadd]
      refine ⟨⟨⟨?_, ?_, ?_⟩, ?_⟩, nofun, fun _ => ?_⟩
      · rw [OrderedMap.total_put, herase, hdropped.reserved]
      · rw [OrderedMap.total_put, herase, hdropped.cache]
        rfl
      · dsimp only
        omega
      · intro entry hentry
        rcases OrderedMap.mem_put.1 hentry with rfl | ⟨hmem, -⟩
        · exact rfl
        · exact hdropped.shaped entry hmem
      · refine ⟨_, (OrderedMap.find_put key key _).trans (if_pos rfl), ?_⟩
        exact ⟨rfl, rfl⟩

theorem Sound.completeMedia {call : MediaCall κ} {size : ℕ}
    (hcareful : ∀ entry ∈ s.entries.find call.key, entry.state ≠ .ready →
      s.reservedBytes - entry.reserved + s.cacheBytes + size ≤ config.totalBytes) (now : ℕ) :
    Sound config (s.completeMedia config call size now) := by
  unfold Previews.completeMedia
  cases hfind : s.entries.find call.key with
  | some entry =>
    simp only [Option.isNone_some, Bool.false_eq_true, if_false, hfind]
    split_ifs with hready
    · exact h.touch _ _
    · exact (h.release_ready hfind hready (hcareful entry hfind hready) now).touch _ _
  | none =>
    -- the reservation is as large as the file, so the file fits
    simp only [Option.isNone_none, if_true]
    obtain ⟨hsound, hnone, hreserved⟩ := h.reserveMedia call.key call.uuid call.fence call.fileId size now
    generalize s.reserveMedia config call.key call.uuid call.fence call.fileId size now = made
      at hsound hnone hreserved
    cases hmade : made.2 with
    | false =>
      rw [hnone hmade hfind]
      exact hsound
    | true =>
      obtain ⟨entry, hentry, hstate, rfl⟩ := hreserved hmade
      rw [hentry]
      have hready : entry.state ≠ .ready := by rw [hstate]; nofun
      simp only []
      rw [if_neg hready]
      refine (hsound.release_ready hentry hready ?_ now).touch _ _
      have hbounded := hsound.bounded
      have hpart := (hsound.toExact.of_find hentry).1
      omega

theorem Sound.abandonMedia (key : κ) (now : ℕ) :
    Sound config (s.abandonMedia config key now) := by
  unfold Previews.abandonMedia
  cases hfind : s.entries.find key with
  | none => exact h
  | some entry =>
    simp only []
    split_ifs with hstate
    · refine h.release_failed (fun other hother => ?_) now
      rw [hfind] at hother
      obtain rfl := Option.mem_some_iff.1 hother
      rw [hstate]
      nofun
    · exact h

theorem Sound.startMedia (call : MediaCall κ) (now : ℕ) :
    Sound config (s.startMedia config call now) := by
  unfold Previews.startMedia
  have habandoned := h.abandonMedia call.key now
  dsimp only
  split_ifs
  · exact habandoned
  · have hsound := (habandoned.reserveMedia call.key call.uuid call.fence call.fileId call.declared now).1
    rcases hmade : (s.abandonMedia config call.key now).reserveMedia config call.key call.uuid call.fence
      call.fileId call.declared now with ⟨s', started⟩
    rw [hmade] at hsound
    cases started with
    | false => exact hsound
    | true => exact ⟨⟨hsound.reserved, hsound.cache, hsound.bounded⟩, hsound.shaped⟩

theorem Sound.step {event : PreviewEvent κ} (hcareful : Careful config s event) :
    Sound config (s.step config event) := by
  cases event with
  | «section» call now =>
    simp only [Previews.step, mediaSection]
    have htrimmed := h.trimMediaEntries now call.uuid call.fence
    cases hcompleted : call.completed with
    | some size => exact htrimmed.completeMedia (hcareful size hcompleted) now
    | none =>
      split_ifs
      · exact htrimmed.touch _ _
      · exact htrimmed.startMedia call now
  | begun key => exact ⟨⟨h.reserved, h.cache, h.bounded⟩, h.shaped⟩
  | refused key now =>
    simp only [Previews.step]
    split_ifs with hwaiting
    · have h' : Sound config { s with waiting := s.waiting.erase key } :=
        ⟨⟨h.reserved, h.cache, h.bounded⟩, h.shaped⟩
      exact h'.release_failed (hcareful hwaiting) now
    · exact h
  | invalidate key =>
    simp only [Previews.step, invalidateMedia]
    cases s.entries.find key with
    | none => exact h
    | some entry =>
      simp only []
      split_ifs
      · exact (h.dropMedia key).1
      · exact h
  | cancelAccount uuid => exact h.cancelAccount uuid

end

end Previews

end Parts

/-- **The accounting of previews.** In every run whose steps meet the condition, the running sums are the
sums over the entries, an entry that is ready reserves nothing and one that failed has no bytes at all,
and all together stay within the limit. -/
theorem previews_of_run {κ : Type} [LinearOrder κ] {config : PreviewConfig}
    {events : List (PreviewEvent κ)} {s : Previews κ}
    (hrun : Run (Within (Previews.Careful config) fun s e s' => Previews.step config s e = s') {} events s) :
    s.reservedBytes = s.entries.total MediaEntry.reserved ∧
      s.cacheBytes = s.entries.total MediaEntry.readyBytes ∧
      (∀ entry ∈ s.entries.entries,
        (entry.2.state = .ready → entry.2.reserved = 0) ∧
          (entry.2.state = .failed → entry.2.reserved = 0 ∧ entry.2.readyBytes = 0)) ∧
      s.reservedBytes + s.cacheBytes ≤ config.totalBytes := by
  have hsound : s.Sound config := by
    refine hrun.invariant (Previews.Sound config) ?_ Previews.sound_start
    rintro s event _ h ⟨hcareful, rfl⟩
    exact h.step hcareful
  refine ⟨hsound.reserved, hsound.cache, fun entry hentry => ?_, hsound.bounded⟩
  have hshaped := hsound.shaped entry hentry
  unfold Previews.Shaped at hshaped
  constructor
  · intro hstate
    rw [hstate] at hshaped
    exact hshaped
  · intro hstate
    rw [hstate] at hshaped
    exact hshaped

/-! ## Two calls for one file -/

def sampleLimits : PreviewConfig where
  maxBytes := 100
  totalBytes := 200
  failureTtl := 300
  max_le := by decide
  total_le := by decide

def sampleCall (file : ℕ) (completed : Option ℕ) : MediaCall ℕ where
  key := file
  uuid := 1
  fence := ⟨1, 1, 1, 1, 0⟩
  fileId := file
  declared := 100
  completed
  active := false

def previewDownloaded : List (PreviewEvent ℕ) :=
  [.section (sampleCall 7 none) 10, .begun 7, .section (sampleCall 7 (some 100)) 11]

theorem previews_of_run_downloaded :
    let s := previewDownloaded.foldl (Previews.step sampleLimits) {}
    s.cacheBytes = 100 ∧ s.cacheBytes = s.entries.total MediaEntry.readyBytes ∧
      s.reservedBytes + s.cacheBytes ≤ 200 := by
  intro s
  have hcareful : ∀ size ∈ (sampleCall 7 (some 100)).completed,
      let s := (previewDownloaded.take 2).foldl (Previews.step sampleLimits) {}
      let s := s.trimMediaEntries sampleLimits 11 1 ⟨1, 1, 1, 1, 0⟩
      ∀ entry ∈ s.entries.find 7, entry.state ≠ .ready →
        s.reservedBytes - entry.reserved + s.cacheBytes + size ≤ sampleLimits.totalBytes := by
    decide +kernel
  have hrun : Run (Within (Previews.Careful sampleLimits) fun s e s' => Previews.step sampleLimits s e = s')
      {} previewDownloaded s :=
    (((Run.nil _).snoc ⟨(fun _ hnone => nomatch hnone), rfl⟩).snoc ⟨trivial, rfl⟩).snoc ⟨hcareful, rfl⟩
  obtain ⟨-, hcache, -, hbounded⟩ := previews_of_run hrun
  exact ⟨by decide +kernel, hcache, hbounded⟩

/-- A call reserves and asks for a download, another call finds the file complete, and the first one
gets no answer. -/
def previewRefused : List (PreviewEvent ℕ) :=
  [.section (sampleCall 7 none) 10, .section (sampleCall 7 (some 100)) 11, .refused 7 12]

def previewLate : List (PreviewEvent ℕ) :=
  [.section (sampleCall 7 none) 10, .refused 7 11, .section (sampleCall 8 none) 12, .begun 8,
    .section (sampleCall 9 none) 12, .begun 9, .section (sampleCall 7 (some 100)) 13]

/-- **The sums drift, and they exceed the limit**: the bytes of a file that failed after it was complete
stay counted, and a file that is complete after its reservation was given back takes room that is not
there. -/
theorem previews_drift :
    Run (fun s e s' => Previews.step sampleLimits s e = s') {} previewRefused
        (previewRefused.foldl (Previews.step sampleLimits) {}) ∧
      (previewRefused.foldl (Previews.step sampleLimits) {}).cacheBytes = 100 ∧
      (previewRefused.foldl (Previews.step sampleLimits) {}).entries.total MediaEntry.readyBytes = 0 ∧
      Run (fun s e s' => Previews.step sampleLimits s e = s') {} previewLate
        (previewLate.foldl (Previews.step sampleLimits) {}) ∧
      sampleLimits.totalBytes <
        (previewLate.foldl (Previews.step sampleLimits) {}).reservedBytes +
          (previewLate.foldl (Previews.step sampleLimits) {}).cacheBytes := by
  refine ⟨(run_function_iff _ _ _ _).mpr rfl, ?_, ?_, (run_function_iff _ _ _ _).mpr rfl, ?_⟩
  · decide +kernel
  · decide +kernel
  · decide +kernel

end Runtime
