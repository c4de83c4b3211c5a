import TeleBezel.Link.Record
import TeleBezel.Phone.SendIndex
import TeleBezel.Watch.SendTracker

/-!
# What the watch shows after a restart

A watch that starts is sent a record of every entry of the phone, one attempt after the other, and
its tracker takes them as it takes the records of one attempt: a settled state is not overruled by
one that is not. So a draft that failed and was sent again is shown as failed while its last attempt
is under way.
-/

open List

namespace Link

open Phone Watch
open Phone.Codec (ascii)

variable (encode : Codec.TextEncoder JsString)

def restoredRecord (entry : Entry) : TbSendStateRecord := heard encode (record entry true)

def restoredBy (tracker : TbSendTracker) (entries : List Entry) : TbSendTracker :=
  entries.foldl (fun tracker entry =>
    (tracker.tbSendRecord (restoredRecord encode entry) true).2) tracker

/-- The entries of which `restoredRecords` makes records. -/
def restoredEntries (c : Compose) : List Entry :=
  (c.entries.filter fun ref => (c.heap ref).state ≠ .sent).map c.heap

/-- The tracker says of an entry what the phone has restored. -/
structure Shows (tracker : TbSendTracker) (entry : Entry) : Prop where
  phase : tracker.status.phase = phaseOf (restoredRecord encode entry).state
  code : tracker.status.code = (restoredRecord encode entry).code
  flags : tracker.status.flags = (restoredRecord encode entry).flags

/-- The tracker gave an attempt up that the phone has not. -/
def Overtaken (tracker : TbSendTracker) (entry : Entry) : Prop :=
  tracker.status.draftId = entry.draftId ∧ tracker.status.phase = .failed ∧ entry.state ≠ .failed

/-- What the phone has stored: numbers within their range, one target for a draft, and the attempts
of a draft in the order of their making. -/
structure Persisted (sends : List Stored) : Prop where
  draft : ∀ stored ∈ sends, 0 < stored.draftId ∧ stored.draftId ≤ 4294967295
  attempt : ∀ stored ∈ sends, stored.attempt < 256
  target : ∀ stored ∈ sends, ∀ other ∈ sends, stored.draftId = other.draftId →
    stored.account = other.account ∧ stored.chat = other.chat
  order : sends.Pairwise fun stored other => stored.draftId = other.draftId →
    stored.created < other.created ∨
      stored.created = other.created ∧ stored.attempt < other.attempt

section Tracker

variable {encode} {tracker : TbSendTracker} {entry : Entry}

def targetOf (entry : Entry) : TbSendTarget where
  account := tbCopySpan tbAccountIdSize ((ascii (some entry.account)).take 255)
  chat := tbCopySpan tbTelegramIdSize ((ascii (some entry.chat)).take 255)

theorem phaseOf_restoredRecord (hsent : entry.state ≠ .sent) :
    phaseOf (restoredRecord encode entry).state =
      match entry.state with
      | .failed => .failed
      | .unknown => .unknown
      | _ => .pending := by
  show phaseOf (Replies.sendStateNumber (stateCode entry.state)) = _
  cases hstate : entry.state with
  | sent => exact absurd hstate hsent
  | _ => rfl

theorem settled_restoredRecord (hsent : entry.state ≠ .sent) :
    settled (phaseOf (restoredRecord encode entry).state) = true ↔ entry.state = .failed := by
  rw [phaseOf_restoredRecord hsent]
  cases hstate : entry.state with
  | sent => exact absurd hstate hsent
  | _ => simp [settled]

variable (encode tracker entry) in
theorem shows_apply (h : ¬ (settled tracker.status.phase ∧
    ¬ settled (phaseOf (restoredRecord encode entry).state))) :
    Shows encode (tracker.apply (restoredRecord encode entry)) entry ∧
      (tracker.apply (restoredRecord encode entry)).status.draftId = tracker.status.draftId ∧
      (tracker.apply (restoredRecord encode entry)).status.target = tracker.status.target := by
  unfold TbSendTracker.apply
  rw [if_neg h]
  dsimp only
  split
  · exact ⟨⟨rfl, rfl, rfl⟩, rfl, rfl⟩
  · exact ⟨⟨rfl, rfl, rfl⟩, rfl, rfl⟩

theorem shows_congr {tracker' : TbSendTracker} (h : tracker'.status = tracker.status) :
    Shows encode tracker' entry ↔ Shows encode tracker entry := by
  constructor
  · rintro ⟨hphase, hcode, hflags⟩
    rw [h] at hphase hcode hflags
    exact ⟨hphase, hcode, hflags⟩
  · rintro ⟨hphase, hcode, hflags⟩
    rw [← h] at hphase hcode hflags
    exact ⟨hphase, hcode, hflags⟩

/-- The entries that are restored: none is sent, their numbers are within their range, and a draft
has one target. -/
structure Restorable (entries : List Entry) : Prop where
  unsent : ∀ entry ∈ entries, entry.state ≠ .sent
  draft : ∀ entry ∈ entries, 0 < entry.draftId ∧ entry.draftId ≤ 4294967295
  target : ∀ entry ∈ entries, ∀ other ∈ entries, entry.draftId = other.draftId →
    targetOf entry = targetOf other

structure Held (entries : List Entry) (tracker : TbSendTracker) : Prop where
  phase : tracker.status.phase ≠ .sent
  target : ∀ entry ∈ entries, entry.draftId = tracker.status.draftId →
    tracker.status.target = targetOf entry

variable (encode) in
/-- What a record of an entry does: nothing, because the tracker shows a failure of the draft or
waits for another one; or it is shown. -/
inductive Taken (tracker : TbSendTracker) (entry : Entry) (tracker' : TbSendTracker) : Prop
  | overtaken (hover : Overtaken tracker entry) (hsame : tracker'.status = tracker.status)
  | waits (hother : tracker.status.draftId ≠ entry.draftId) (hsame : tracker'.status = tracker.status)
  | shown (hnot : ¬ Overtaken tracker entry) (hshows : Shows encode tracker' entry)
      (hdraft : tracker'.status.draftId = entry.draftId)
      (htarget : tracker'.status.target = targetOf entry)

variable {entries : List Entry}

section

variable (hentries : Restorable entries) (h : Held entries tracker)
include hentries h

theorem taken_tbSendRecord (hmem : entry ∈ entries) : Taken encode tracker entry
      (tracker.tbSendRecord (restoredRecord encode entry) true).2 := by
  have hsent := hentries.unsent entry hmem
  have hdraft : (restoredRecord encode entry).draftId = entry.draftId := by
    show min 4294967295 entry.draftId = entry.draftId
    have := (hentries.draft entry hmem).2
    omega
  have hpos : (restoredRecord encode entry).draftId ≠ 0 := by
    rw [hdraft]
    exact (hentries.draft entry hmem).1.ne'
  unfold TbSendTracker.tbSendRecord
  rw [if_neg hpos, hdraft]
  split
  · rename_i hother
    split
    · exact .waits (Ne.symm hother) rfl
    · -- the draft is taken up anew
      have hfresh : ¬ (settled TbSendPhase.idle ∧
          ¬ settled (phaseOf (restoredRecord encode entry).state)) := by
        simp [settled]
      obtain ⟨hshows, hid, htarget⟩ := shows_apply encode
        { tracker with
          status :=
            { draftId := entry.draftId
              restored := true
              target := targetOf entry }
          attempt := 0 } entry hfresh
      refine .shown ?_ hshows hid htarget
      intro hover
      exact hother hover.1.symm
  · rename_i hsame
    have hdraftEq : tracker.status.draftId = entry.draftId := (not_not.mp hsame).symm
    have htarget := h.target entry hmem hdraftEq.symm
    have hright : sameTarget tracker.status.target (restoredRecord encode entry) = true := by
      rw [htarget]
      simp [sameTarget, targetOf, restoredRecord, heard, record]
    rw [if_neg (by rw [hright]; decide)]
    by_cases hover : Overtaken tracker entry
    · refine .overtaken hover ?_
      have hskip : settled tracker.status.phase ∧
          ¬ settled (phaseOf (restoredRecord encode entry).state) := by
        refine ⟨by rw [hover.2.1]; rfl, ?_⟩
        rw [settled_restoredRecord hsent]
        exact hover.2.2
      unfold TbSendTracker.apply
      rw [if_pos hskip]
    · have happly : ¬ (settled tracker.status.phase ∧
          ¬ settled (phaseOf (restoredRecord encode entry).state)) := by
        rintro ⟨hsettled, hnot⟩
        refine hover ⟨hdraftEq, ?_, ?_⟩
        · have hphase := h.phase
          cases hp : tracker.status.phase with
          | failed => rfl
          | sent => exact absurd hp hphase
          | _ => simp [hp, settled] at hsettled
        · intro hfailed
          exact hnot ((settled_restoredRecord hsent).mpr hfailed)
      obtain ⟨hshows, hid, htarget'⟩ := shows_apply encode tracker entry happly
      exact .shown hover hshows (hid.trans hdraftEq) (htarget'.trans htarget)

theorem Held.taken (hmem : entry ∈ entries) {tracker' : TbSendTracker}
    (htaken : Taken encode tracker entry tracker') : Held entries tracker' := by
  cases htaken with
  | overtaken _ hsame | waits _ hsame =>
    exact ⟨by rw [hsame]; exact h.phase, by rw [hsame]; exact h.target⟩
  | shown _ hshows hdraft htarget =>
    constructor
    · rw [hshows.phase, phaseOf_restoredRecord (hentries.unsent entry hmem)]
      split <;> decide
    · intro other hother hsame
      rw [htarget]
      exact hentries.target entry hmem other hother (hdraft.symm.trans hsame.symm)

theorem held_restoredBy {some : List Entry} (hsome : some ⊆ entries) :
    Held entries (restoredBy encode tracker some) := by
  induction some generalizing tracker with
  | nil => exact h
  | cons entry some ih =>
    have hmem := hsome mem_cons_self
    exact ih (h.taken hentries hmem (taken_tbSendRecord hentries h hmem))
      fun other hother => hsome (mem_cons_of_mem _ hother)

theorem status_restoredBy_others {others : List Entry} (hothers : others ⊆ entries) {draftId : ℕ}
    (hnone : ∀ entry ∈ others, entry.draftId ≠ draftId)
    (hend : (restoredBy encode tracker others).status.draftId = draftId) :
    (restoredBy encode tracker others).status = tracker.status := by
  induction others generalizing tracker with
  | nil => rfl
  | cons entry others ih =>
    have hmem := hothers mem_cons_self
    have htaken : Taken encode tracker entry _ := taken_tbSendRecord hentries h hmem
    have hrest := ih (h.taken hentries hmem htaken)
      (fun other hother => hothers (mem_cons_of_mem _ hother))
      (fun other hother => hnone other (mem_cons_of_mem _ hother)) hend
    have hdraft : (tracker.tbSendRecord (restoredRecord encode entry) true).2.status.draftId =
        draftId := by
      rw [← hend]
      exact congrArg TbSendStatus.draftId hrest.symm
    refine hrest.trans ?_
    cases htaken with
    | overtaken _ hsame => exact hsame
    | waits _ hsame => exact hsame
    | shown _ _ hid _ => exact absurd (hid.symm.trans hdraft) (hnone entry mem_cons_self)

theorem shows_iff {before after : List Entry} (hsplit : entries = before ++ entry :: after)
    (hdraft : (restoredBy encode tracker entries).status.draftId = entry.draftId)
    (hlast : ∀ other ∈ after, other.draftId ≠ entry.draftId) :
    Shows encode (restoredBy encode tracker entries) entry ↔
      ¬ Overtaken (restoredBy encode tracker before) entry := by
  have hbefore : Held entries (restoredBy encode tracker before) := by
    refine held_restoredBy hentries h ?_
    rw [hsplit]
    exact subset_append_left _ _
  have hmem : entry ∈ entries := by
    rw [hsplit]
    simp
  have htaken : Taken encode (restoredBy encode tracker before) entry _ :=
    taken_tbSendRecord hentries hbefore hmem
  have hafter := hbefore.taken hentries hmem htaken
  -- the records after it are of other drafts
  have hrun : restoredBy encode tracker entries = restoredBy encode
      ((restoredBy encode tracker before).tbSendRecord (restoredRecord encode entry) true).2
      after := by
    nth_rewrite 1 [hsplit]
    simp [restoredBy]
  rw [hrun] at hdraft ⊢
  have hstatus := status_restoredBy_others hentries hafter
    (by rw [hsplit]; intro other hother; simp [hother]) hlast hdraft
  have hid : ((restoredBy encode tracker before).tbSendRecord (restoredRecord encode entry)
      true).2.status.draftId = entry.draftId := by
    rw [← hstatus]
    exact hdraft
  rw [shows_congr hstatus]
  cases htaken with
  | overtaken hover hsame =>
    refine ⟨fun hshown => ?_, fun hnot => absurd hover hnot⟩
    have hphase := hshown.phase
    rw [hsame, hover.2.1, phaseOf_restoredRecord (hentries.unsent entry hmem)] at hphase
    have hfailed := hover.2.2
    cases hstate : entry.state <;> simp_all
  | waits hother hsame =>
    rw [hsame] at hid
    exact absurd hid hother
  | shown hnot hshown _ _ => exact ⟨fun _ => hnot, fun _ => hshown⟩

end

end Tracker

section Latest

variable {c : Compose} {sends : List Stored}

/-- What `load` has made of some stored entries. -/
structure Loaded (sends : List Stored) (c : Compose) : Prop where
  next : c.next = sends.length
  entries : c.entries = List.range sends.length
  heap : ∀ i stored, sends[i]? = some stored → c.heap i = stored.restore
  slot : ∀ d n ref, c.slot d n = some ref →
    ∃ stored, sends[ref]? = some stored ∧ stored.draftId = d ∧ stored.attempt = n
  found : ∀ i stored, sends[i]? = some stored →
    ∃ ref, i ≤ ref ∧ c.slot stored.draftId stored.attempt = some ref

theorem getElem?_snoc {stored other : Stored} {i : ℕ} (h : (sends ++ [stored])[i]? = some other) :
    sends[i]? = some other ∧ i < sends.length ∨ i = sends.length ∧ other = stored := by
  rcases Nat.lt_or_ge i sends.length with hlt | hge
  · rw [List.getElem?_append_left hlt] at h
    exact Or.inl ⟨h, hlt⟩
  · rw [List.getElem?_append_right hge] at h
    cases hk : i - sends.length with
    | zero =>
      rw [hk] at h
      exact Or.inr ⟨by omega, (Option.some.inj h).symm⟩
    | succ k =>
      rw [hk] at h
      exact absurd h (by simp)

theorem Loaded.restore (h : Loaded sends c) (stored : Stored) :
    Loaded (sends ++ [stored]) (c.restore stored) where
  next := by
    rw [Compose.restore_next, h.next, length_append]
    rfl
  entries := by
    rw [Compose.restore_entries, h.entries, h.next, length_append, length_singleton,
      range_succ]
  heap := by
    intro i other hi
    rw [Compose.restore_heap]
    rcases getElem?_snoc hi with ⟨hold, hlt⟩ | ⟨rfl, rfl⟩
    · rw [Function.update_of_ne (by rw [h.next]; omega)]
      exact h.heap i other hold
    · rw [h.next, Function.update_self]
  slot := by
    intro d n ref hslot
    rw [slot_restore] at hslot
    split at hslot
    · rename_i hsame
      obtain rfl := Option.some.inj hslot
      refine ⟨stored, ?_, hsame.1.symm, hsame.2.symm⟩
      rw [h.next]
      simp
    · obtain ⟨other, hother, hd, hn⟩ := h.slot d n ref hslot
      refine ⟨other, ?_, hd, hn⟩
      have hlt : ref < sends.length := (List.getElem?_eq_some_iff.mp hother).1
      rw [List.getElem?_append_left hlt]
      exact hother
  found := by
    intro i other hi
    simp only [slot_restore]
    rcases getElem?_snoc hi with ⟨hold, hlt⟩ | ⟨rfl, rfl⟩
    · split
      · exact ⟨c.next, by rw [h.next]; omega, rfl⟩
      · exact h.found i other hold
    · refine ⟨c.next, h.next.ge, ?_⟩
      simp

theorem loaded_foldl (h : Loaded sends c) (more : List Stored) :
    Loaded (sends ++ more) (more.foldl Compose.restore c) := by
  induction more generalizing sends c with
  | nil => simpa using h
  | cons stored more ih =>
    rw [append_cons]
    exact ih (h.restore stored)

theorem loaded_load (env : Env) (sends : List Stored) :
    Loaded (Compose.restorable env { sends }) (({ sends } : Compose).load env) := by
  have hempty : Loaded [] ({ sends, loaded := true } : Compose) :=
    ⟨rfl, rfl, by simp, by simp [Compose.slot], by simp⟩
  have hloaded := loaded_foldl hempty (Compose.restorable env { sends })
  rw [nil_append] at hloaded
  exact ⟨hloaded.next, hloaded.entries, hloaded.heap, hloaded.slot, hloaded.found⟩

/-- The choice of `latest` between two entries. -/
def later (c : Compose) (best : Option ℕ) (ref : ℕ) : Option ℕ :=
  match best with
  | none => some ref
  | some b => if (c.heap b).created ≤ (c.heap ref).created then some ref else some b

theorem latest_eq_foldl (c : Compose) (found : Draft) :
    c.latest found = (Compose.attemptsOf found).foldl (later c) none := rfl

theorem later_foldl_le (time : ℤ) {refs : List ℕ} {best : Option ℕ}
    (hbest : ∀ ref ∈ best, (c.heap ref).created ≤ time)
    (hrefs : ∀ ref ∈ refs, (c.heap ref).created ≤ time) :
    ∀ ref ∈ refs.foldl (later c) best, (c.heap ref).created ≤ time := by
  induction refs generalizing best with
  | nil => exact hbest
  | cons first refs ih =>
    refine ih ?_ fun ref href => hrefs ref (mem_cons_of_mem _ href)
    intro ref href
    have hfirst := hrefs first mem_cons_self
    cases best with
    | none =>
      obtain rfl : first = ref := by simpa [later] using href
      exact hfirst
    | some b =>
      simp only [later] at href
      split at href
      · obtain rfl : first = ref := by simpa using href
        exact hfirst
      · obtain rfl : b = ref := by simpa using href
        exact hbest b rfl

theorem later_foldl_of_lt {last : ℕ} {refs : List ℕ}
    (hrefs : ∀ ref ∈ refs, (c.heap ref).created < (c.heap last).created) :
    refs.foldl (later c) (some last) = some last := by
  induction refs with
  | nil => rfl
  | cons first refs ih =>
    have hfirst := hrefs first mem_cons_self
    have hkeep : later c (some last) first = some last := by
      simp only [later]
      rw [if_neg (by omega)]
    rw [foldl_cons, hkeep]
    exact ih fun ref href => hrefs ref (mem_cons_of_mem _ href)

theorem range_split {k n : ℕ} (h : k < n) :
    List.range n = List.range k ++ k :: List.range' (k + 1) (n - 1 - k) := by
  have hsum : n = k + (n - 1 - k + 1) := by omega
  calc List.range n = List.range' 0 (k + (n - 1 - k + 1)) := by
        rw [← hsum, range_eq_range']
    _ = List.range' 0 k ++ List.range' (0 + k) (n - 1 - k + 1) := range'_append_1.symm
    _ = List.range k ++ k :: List.range' (k + 1) (n - 1 - k) := by
        rw [range'_succ, Nat.zero_add, range_eq_range']

theorem latest_eq {found : Draft} {last attempt : ℕ} (hlast : found.attempts attempt = some last)
    (hless : attempt < 256)
    (hbefore : ∀ n < attempt, ∀ ref, found.attempts n = some ref →
      (c.heap ref).created ≤ (c.heap last).created)
    (hafter : ∀ n, attempt < n → ∀ ref, found.attempts n = some ref →
      (c.heap ref).created < (c.heap last).created) : c.latest found = some last := by
  have hsplit : Compose.attemptsOf found = (List.range attempt).filterMap found.attempts ++
      last :: (List.range' (attempt + 1) (255 - attempt)).filterMap found.attempts := by
    rw [Compose.attemptsOf, range_split hless, filterMap_append,
      filterMap_cons_some hlast]
  have hfirst : ∀ ref ∈ ((List.range attempt).filterMap found.attempts).foldl (later c) none,
      (c.heap ref).created ≤ (c.heap last).created := by
    refine later_foldl_le _ (by simp) ?_
    intro ref href
    obtain ⟨n, hn, href⟩ := mem_filterMap.mp href
    exact hbefore n (mem_range.mp hn) ref href
  have hchoose : later c (((List.range attempt).filterMap found.attempts).foldl (later c) none)
      last = some last := by
    cases hbest : ((List.range attempt).filterMap found.attempts).foldl (later c) none with
    | none => rfl
    | some best =>
      rw [hbest] at hfirst
      simp only [later]
      rw [if_pos (hfirst best rfl)]
  rw [latest_eq_foldl, hsplit, foldl_append, foldl_cons, hchoose]
  refine later_foldl_of_lt ?_
  intro ref href
  obtain ⟨n, hn, href⟩ := mem_filterMap.mp href
  exact hafter n (by have := mem_range'_1.mp hn; omega) ref href

/-- **The attempt that a check asks after** is the last one of its draft that was stored. -/
theorem latest_load (h : Persisted sends) (hloaded : Loaded sends c) {last : ℕ} {stored : Stored}
    (hlast : sends[last]? = some stored)
    (hnone : ∀ i other, last < i → sends[i]? = some other → other.draftId ≠ stored.draftId) :
    (c.drafts stored.draftId).bind c.latest = some last := by
  -- the slot of its attempt holds it, as nothing of the draft comes after it
  have hslot : c.slot stored.draftId stored.attempt = some last := by
    obtain ⟨ref, hle, hslot⟩ := hloaded.found last stored hlast
    obtain ⟨other, hother, hdraft, -⟩ := hloaded.slot _ _ ref hslot
    rcases Nat.lt_or_eq_of_le hle with hlt | rfl
    · exact absurd hdraft (hnone ref other hlt hother)
    · exact hslot
  obtain ⟨found, hfound, hattempt⟩ := Option.bind_eq_some_iff.mp hslot
  rw [hfound, Option.bind_some]
  have hmem : stored ∈ sends := mem_of_getElem? hlast
  -- every other entry of the draft comes before it
  have hearlier : ∀ n ref, found.attempts n = some ref → ref ≠ last →
      (c.heap ref).created < (c.heap last).created ∨
        (c.heap ref).created = (c.heap last).created ∧ n < stored.attempt := by
    intro n ref hn hne
    have hslot' : c.slot stored.draftId n = some ref := by
      unfold Compose.slot
      rw [hfound]
      exact hn
    obtain ⟨other, hother, hdraft, rfl⟩ := hloaded.slot _ _ ref hslot'
    have hlt : ref < last := by
      rcases Nat.lt_trichotomy ref last with hlt | heq | hgt
      · exact hlt
      · exact absurd heq hne
      · exact absurd hdraft (hnone ref other hgt hother)
    rw [hloaded.heap ref other hother, hloaded.heap last stored hlast]
    obtain ⟨hr, hget⟩ := List.getElem?_eq_some_iff.mp hother
    obtain ⟨hl, hget'⟩ := List.getElem?_eq_some_iff.mp hlast
    have hpair := pairwise_iff_getElem.mp h.order ref last hr hl hlt
    rw [hget, hget'] at hpair
    exact hpair hdraft
  refine latest_eq hattempt (h.attempt stored hmem) ?_ ?_
  · intro n _ ref hn
    by_cases heq : ref = last
    · rw [heq]
    · rcases hearlier n ref hn heq with hlt | ⟨hsame, -⟩
      · exact hlt.le
      · exact hsame.le
  · intro n hgt ref hn
    by_cases heq : ref = last
    · subst heq
      have hslot' : c.slot stored.draftId n = some ref := by
        unfold Compose.slot
        rw [hfound]
        exact hn
      obtain ⟨other, hother, -, hnumber⟩ := hloaded.slot _ _ ref hslot'
      rw [hlast] at hother
      obtain rfl := Option.some.inj hother
      omega
    · rcases hearlier n ref hn heq with hlt | ⟨-, hless⟩
      · exact hlt
      · omega

end Latest

section Status

variable {encode} {sends : List Stored}

theorem exists_last {p : Stored → Prop} (h : ∃ stored ∈ sends, p stored) :
    ∃ before stored after, sends = before ++ stored :: after ∧ p stored ∧
      ∀ other ∈ after, ¬ p other := by
  induction sends using List.reverseRecOn with
  | nil =>
    obtain ⟨stored, hmem, -⟩ := h
    exact absurd hmem (by simp)
  | append_singleton sends last ih =>
    by_cases hlast : p last
    · exact ⟨sends, last, [], rfl, hlast, by simp⟩
    · have hearlier : ∃ stored ∈ sends, p stored := by
        obtain ⟨stored, hmem, hp⟩ := h
        rcases mem_append.mp hmem with hold | hnew
        · exact ⟨stored, hold, hp⟩
        · rw [mem_singleton.mp hnew] at hp
          exact absurd hp hlast
      obtain ⟨before, stored, after, rfl, hp, hafter⟩ := ih hearlier
      refine ⟨before, stored, after ++ [last], by simp, hp, ?_⟩
      intro other hother
      rcases mem_append.mp hother with hold | hnew
      · exact hafter other hold
      · rw [mem_singleton.mp hnew]
        exact hlast

theorem draftId_restoredBy {entries : List Entry} {tracker : TbSendTracker}
    (hentries : Restorable entries) (h : Held entries tracker) {some : List Entry}
    (hsome : some ⊆ entries) :
    (restoredBy encode tracker some).status.draftId = tracker.status.draftId ∨
      ∃ entry ∈ some, entry.draftId = (restoredBy encode tracker some).status.draftId := by
  induction some generalizing tracker with
  | nil => exact Or.inl rfl
  | cons entry some ih =>
    have hmem := hsome mem_cons_self
    have htaken : Taken encode tracker entry _ := taken_tbSendRecord hentries h hmem
    rcases ih (h.taken hentries hmem htaken)
      (fun other hother => hsome (mem_cons_of_mem _ hother)) with hsame | ⟨other, hother, hid⟩
    · cases htaken with
      | overtaken _ hstatus | waits _ hstatus =>
        refine Or.inl (hsame.trans ?_)
        rw [hstatus]
      | shown _ _ hdraft _ => exact Or.inr ⟨entry, mem_cons_self, (hsame.trans hdraft).symm⟩
    · exact Or.inr ⟨other, mem_cons_of_mem _ hother, hid⟩

theorem Persisted.filter (h : Persisted sends) (p : Stored → Bool) :
    Persisted (sends.filter p) where
  draft := fun stored hmem => h.draft stored (mem_filter.mp hmem).1
  attempt := fun stored hmem => h.attempt stored (mem_filter.mp hmem).1
  target := fun stored hmem other hother =>
    h.target stored (mem_filter.mp hmem).1 other (mem_filter.mp hother).1
  order := h.order.filter p

theorem Persisted.restorable (h : Persisted sends) (env : Env) :
    Persisted (Compose.restorable env { sends }) := by
  unfold Compose.restorable
  split
  · exact h.filter _
  · exact ⟨by simp, by simp, by simp, List.Pairwise.nil⟩

theorem restorable_restore (h : Persisted sends) (hunsent : ∀ stored ∈ sends, stored.state ≠ .sent) :
    Restorable (sends.map Stored.restore) where
  unsent := by
    intro entry hentry
    obtain ⟨stored, hmem, rfl⟩ := mem_map.mp hentry
    unfold Stored.restore
    dsimp only
    split
    · decide
    · exact hunsent stored hmem
  draft := by
    intro entry hentry
    obtain ⟨stored, hmem, rfl⟩ := mem_map.mp hentry
    exact h.draft stored hmem
  target := by
    intro entry hentry other hother hsame
    obtain ⟨stored, hmem, rfl⟩ := mem_map.mp hentry
    obtain ⟨stored', hmem', rfl⟩ := mem_map.mp hother
    obtain ⟨haccount, hchat⟩ := h.target stored hmem stored' hmem' hsame
    show TbSendTarget.mk (tbCopySpan _ ((ascii (some stored.account)).take 255))
      (tbCopySpan _ ((ascii (some stored.chat)).take 255)) [] = _
    rw [haccount, hchat]
    rfl

theorem state_ne_sent_of_restorable {env : Env} {stored : Stored}
    (h : stored ∈ Compose.restorable env { sends }) : stored.state ≠ .sent := by
  unfold Compose.restorable at h
  split at h
  · have hkept := (mem_filter.mp h).2
    simp only [Stored.restorable, Bool.and_eq_true, decide_eq_true_eq] at hkept
    tauto
  · exact absurd h (by simp)

theorem map_heap_range {c : Compose} (h : Loaded sends c) {n : ℕ} (hn : n ≤ sends.length) :
    (List.range n).map c.heap = (sends.take n).map Stored.restore := by
  apply ext_getElem?
  intro i
  rcases Nat.lt_or_ge i n with hlt | hge
  · have hlen : i < sends.length := by omega
    have hget : sends[i]? = some sends[i] := List.getElem?_eq_getElem hlen
    simp [hlt, hget, h.heap i _ hget]
  · simp [hge]

theorem restoredEntries_load (env : Env) (sends : List Stored) :
    restoredEntries (({ sends } : Compose).load env) =
      (Compose.restorable env { sends }).map Stored.restore := by
  have hloaded := loaded_load env sends
  have hall : (({ sends } : Compose).load env).entries.map (({ sends } : Compose).load env).heap =
      (Compose.restorable env { sends }).map Stored.restore := by
    rw [hloaded.entries, map_heap_range hloaded le_rfl, take_length]
  have hunsent : ∀ ref ∈ (({ sends } : Compose).load env).entries,
      ((({ sends } : Compose).load env).heap ref).state ≠ .sent := by
    intro ref href
    rw [hloaded.entries, mem_range] at href
    rw [hloaded.heap ref _ (List.getElem?_eq_getElem href)]
    unfold Stored.restore
    dsimp only
    split
    · decide
    · exact state_ne_sent_of_restorable (getElem_mem href)
  unfold restoredEntries
  rw [filter_eq_self.mpr (by simpa using hunsent), hall]

/-- **The status after a restart.** For all that a phone may have stored: when the watch has taken
the records of a phone that starts, it shows the latest attempt of the draft it has taken up exactly
if it did not show a failure of this draft when the record of that attempt came, or the attempt has
failed as well. -/
theorem restored_status_iff (encode : Codec.TextEncoder JsString) {sends : List Stored}
    (h : Persisted sends) (env : Env) :
    let c := ({ sends } : Compose).load env
    let tracker := restoredBy encode {} (restoredEntries c)
    tracker.status.draftId ≠ 0 → ∃ last,
      (c.drafts tracker.status.draftId).bind c.latest = some last ∧
      (Shows encode tracker (c.heap last) ↔
        ¬ Overtaken (restoredBy encode {} ((c.entries.takeWhile (· ≠ last)).map c.heap))
          (c.heap last)) := by
  intro c tracker htracked
  have hloaded := loaded_load env sends
  have hpersisted := h.restorable env
  have hrestored : restoredEntries c = (Compose.restorable env { sends }).map Stored.restore :=
    restoredEntries_load env sends
  have hunsent : ∀ stored ∈ Compose.restorable env { sends }, stored.state ≠ .sent :=
    fun stored hmem => state_ne_sent_of_restorable hmem
  generalize Compose.restorable env { sends } = kept at hloaded hpersisted hrestored hunsent
  have hentries : Restorable (kept.map Stored.restore) := restorable_restore hpersisted hunsent
  have hheld : Held (kept.map Stored.restore) ({} : TbSendTracker) := by
    refine ⟨by decide, ?_⟩
    intro entry hentry hzero
    exact absurd hzero (hentries.draft entry hentry).1.ne'
  have htracker : tracker = restoredBy encode {} (kept.map Stored.restore) := by
    rw [← hrestored]
  -- the draft that is tracked has a last entry
  have hone : ∃ stored ∈ kept, stored.draftId = tracker.status.draftId := by
    rw [htracker] at htracked ⊢
    rcases draftId_restoredBy hentries hheld (List.Subset.refl _) with hzero | ⟨entry, hmem, hid⟩
    · exact absurd hzero htracked
    · obtain ⟨stored, hstored, rfl⟩ := List.mem_map.mp hmem
      exact ⟨stored, hstored, hid⟩
  obtain ⟨before, stored, after, hkept, hid, hafter⟩ := exists_last hone
  have hget : kept[before.length]? = some stored := by
    rw [hkept]
    simp
  have hnone : ∀ i other, before.length < i → kept[i]? = some other →
      other.draftId ≠ stored.draftId := by
    intro i other hlt hother
    rw [hid]
    refine hafter other ?_
    rw [hkept, List.getElem?_append_right hlt.le] at hother
    obtain ⟨k, hk⟩ : ∃ k, i - before.length = k + 1 := ⟨i - before.length - 1, by omega⟩
    rw [hk, List.getElem?_cons_succ] at hother
    exact List.mem_of_getElem? hother
  refine ⟨before.length, ?_, ?_⟩
  · rw [← hid]
    exact latest_load hpersisted hloaded hget hnone
  · have hlength : before.length < kept.length := by
      rw [hkept]
      simp
    have hwhile : c.entries.takeWhile (· ≠ before.length) = List.range before.length := by
      rw [hloaded.entries, range_split hlength, List.takeWhile_append_of_pos,
        List.takeWhile_cons_of_neg (by simp), List.append_nil]
      intro i hi
      have := List.mem_range.mp hi
      simp only [ne_eq, decide_not, Bool.not_eq_eq_eq_not, Bool.not_true, decide_eq_false_iff_not]
      omega
    have hearlier : (c.entries.takeWhile (· ≠ before.length)).map c.heap =
        before.map Stored.restore := by
      rw [hwhile, map_heap_range hloaded hlength.le, hkept, List.take_left]
    rw [hearlier, hloaded.heap _ _ hget, htracker]
    have hsplit : kept.map Stored.restore =
        before.map Stored.restore ++ stored.restore :: after.map Stored.restore := by
      rw [hkept]
      simp
    refine shows_iff hentries hheld hsplit ?_ ?_
    · rw [← htracker]
      exact hid.symm
    · intro other hother
      obtain ⟨stored', hstored', rfl⟩ := List.mem_map.mp hother
      show stored'.draftId ≠ stored.draftId
      rw [hid]
      exact hafter stored' hstored'

/-- An attempt at the first draft, as it was stored. -/
def storedAttempt (attempt : ℕ) (state : SendState) (created : ℤ) : Stored where
  draftId := 1
  attempt := attempt
  key := [107, attempt]
  account := Sample.account
  chat := [49]
  reply := []
  title := []
  text := [72, 105]
  created := created
  fingerprint := fingerprint Sample.settings
  state := state
  retryable := state = .failed
  tracked := created

theorem persisted_pair (state state' : SendState) :
    Persisted [storedAttempt 0 state 1, storedAttempt 1 state' 2] := by
  constructor
  · simp [storedAttempt]
  · simp [storedAttempt]
  · simp [storedAttempt]
  · simp [storedAttempt]

def startedPair (state state' : SendState) : Compose :=
  ({ sends := [storedAttempt 0 state 1, storedAttempt 1 state' 2] } : Compose).load (Sample.env 3)

/-- The encoding of a short text of ASCII. -/
def ascii7 : Codec.TextEncoder JsString := fun text _ _ => ⟨text.map UInt8.ofNat, false⟩

def restoredPair (state state' : SendState) : TbSendTracker :=
  restoredBy ascii7 {} (restoredEntries (startedPair state state'))

theorem restored_status_iff_unknown :
    (restoredPair .unknown .pending).status.phase = .pending ∧
      ((startedPair .unknown .pending).drafts 1).bind (startedPair .unknown .pending).latest =
        some 1 ∧
      Shows ascii7 (restoredPair .unknown .pending)
        ((startedPair .unknown .pending).heap 1) := by
  have hlatest : ((startedPair .unknown .pending).drafts 1).bind
      (startedPair .unknown .pending).latest = some 1 := by decide
  obtain ⟨last, hlast, hiff⟩ := restored_status_iff ascii7
    (persisted_pair .unknown .pending) (Sample.env 3) (by decide)
  obtain rfl : last = 1 := Option.some.inj (hlast.symm.trans hlatest)
  refine ⟨by decide, hlatest, hiff.mpr ?_⟩
  intro hover
  exact absurd hover.2.1 (by decide)

/-- **A failure hides the attempt after it**: the draft failed and was sent again, and the watch
shows that it failed and may be sent once more. -/
theorem failed_hides_pending :
    Persisted [storedAttempt 0 .failed 1, storedAttempt 1 .pending 2] ∧
      ((startedPair .failed .pending).drafts 1).bind (startedPair .failed .pending).latest =
        some 1 ∧
      ((startedPair .failed .pending).heap 1).state = .pending ∧
      (restoredPair .failed .pending).status.draftId = 1 ∧
      (restoredPair .failed .pending).status.phase = .failed ∧
      (restoredPair .failed .pending).status.flags &&& tbSendFlagRetryable = 1 ∧
      ¬ Shows ascii7 (restoredPair .failed .pending)
        ((startedPair .failed .pending).heap 1) := by
  refine ⟨persisted_pair .failed .pending, by decide, by decide, by decide, by decide, by decide, ?_⟩
  intro hshows
  exact absurd hshows.phase (by decide)

end Status

end Link
