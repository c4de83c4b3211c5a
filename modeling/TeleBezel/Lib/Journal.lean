import Mathlib.Data.List.Range
import Mathlib.Tactic.Ring

/-!
# Bounded journals

A journal numbers its entries one after the other and keeps the last few of them. The number of the
last entry stays when the journal is cleared, so the next entry goes on counting; a reader who has come
as far as some number can still be served when nothing after it was dropped.
-/

open List

/-- A journal: the number of its last entry, and the entries that are kept, oldest first. -/
structure Journal (α : Type*) where
  sequence : ℕ := 0
  events : List (ℕ × α) := []
  length_le : events.length ≤ sequence := by exact Nat.le_refl 0
  consecutive : events.map Prod.fst =
    List.range' (sequence + 1 - events.length) events.length := by rfl

namespace Journal

variable {α : Type*}

def empty : Journal α := {}

def first (j : Journal α) : Option ℕ := j.events.head?.map Prod.fst

def after (j : Journal α) (sequence : ℕ) : List (ℕ × α) :=
  j.events.filter fun event => decide (sequence < event.1)

def clear (j : Journal α) : Journal α where
  sequence := j.sequence
  length_le := Nat.zero_le _

theorem consecutive_drop {events : List (ℕ × α)} {sequence : ℕ} (count : ℕ)
    (hle : events.length ≤ sequence)
    (h : events.map Prod.fst = List.range' (sequence + 1 - events.length) events.length) :
    (events.drop count).map Prod.fst =
      List.range' (sequence + 1 - (events.drop count).length) (events.drop count).length := by
  rw [map_drop, h, drop_range', length_drop]
  by_cases hcount : count ≤ events.length
  · congr 1
    omega
  · -- all of them are dropped
    have hzero : events.length - count = 0 := by omega
    rw [hzero]
    rfl

def append (kept : ℕ) (j : Journal α) (entry : α) : Journal α where
  sequence := j.sequence + 1
  events :=
    let events := j.events ++ [(j.sequence + 1, entry)]
    events.drop (events.length - kept)
  length_le := by
    have := j.length_le
    simp only [length_drop, length_append, length_singleton]
    omega
  consecutive := by
    refine consecutive_drop _ ?_ ?_
    · have := j.length_le
      simp only [length_append, length_singleton]
      omega
    · rw [map_append, j.consecutive, length_append, length_singleton,
        range'_concat]
      have := j.length_le
      simp only [map_cons, map_nil, Nat.one_mul]
      congr 2
      · omega
      · omega

variable (j : Journal α)

@[simp] theorem append_sequence (kept : ℕ) (entry : α) :
    (j.append kept entry).sequence = j.sequence + 1 := rfl

theorem append_events_ne_nil {kept : ℕ} (hkept : 0 < kept) (entry : α) :
    (j.append kept entry).events ≠ [] := by
  intro h
  have hlength := congrArg List.length h
  simp only [append, length_drop, length_append, length_singleton,
    length_nil] at hlength
  omega

theorem first_eq (h : j.events ≠ []) : j.first = some (j.sequence + 1 - j.events.length) := by
  have hpos : 0 < j.events.length := length_pos_iff.2 h
  have hhead : j.first = (j.events.map Prod.fst).head? := by rw [List.head?_map]; rfl
  rw [hhead, j.consecutive, List.head?_range', if_neg hpos.ne']

theorem mem_events_bounds {event : ℕ × α} (h : event ∈ j.events) :
    j.sequence + 1 - j.events.length ≤ event.1 ∧ event.1 ≤ j.sequence := by
  have hmem : event.1 ∈ j.events.map Prod.fst := mem_map_of_mem h
  have := j.length_le
  rw [j.consecutive, mem_range'_1] at hmem
  omega

theorem filter_range' (start length bound : ℕ) (hstart : start ≤ bound + 1) :
    (List.range' start length).filter (fun n => decide (bound < n)) =
      List.range' (bound + 1) (start + length - (bound + 1)) := by
  induction length with
  | zero =>
    have hzero : start + 0 - (bound + 1) = 0 := by omega
    rw [hzero]
    rfl
  | succ length ih =>
    rw [range'_concat, filter_append, ih, Nat.one_mul]
    by_cases hlt : bound < start + length
    · have hlength : start + (length + 1) - (bound + 1) = start + length - (bound + 1) + 1 := by omega
      rw [filter_cons_of_pos (by simpa using hlt), filter_nil, hlength, range'_concat]
      congr 2
      omega
    · have hlength : start + (length + 1) - (bound + 1) = 0 := by omega
      have hlength' : start + length - (bound + 1) = 0 := by omega
      rw [filter_cons_of_neg (by simpa using hlt), filter_nil, hlength, hlength']
      rfl

section

variable (h : j.events ≠ []) {sequence : ℕ} (hfirst : ∀ first ∈ j.first, first ≤ sequence + 1)
include h sequence hfirst

/-- **Nothing is left out**: a reader whose number is not below what is kept gets all that follows. -/
theorem map_after :
    (j.after sequence).map Prod.fst = List.range' (sequence + 1) (j.sequence - sequence) := by
  have hfirst' := hfirst _ (j.first_eq h)
  have hle := j.length_le
  have hmap : (j.after sequence).map Prod.fst =
      (j.events.map Prod.fst).filter fun n => decide (sequence < n) := by
    rw [filter_map]
    rfl
  rw [hmap, j.consecutive, filter_range' _ _ _ hfirst']
  congr 1
  omega

theorem take_after (count : ℕ) :
    ((j.after sequence).take count).map Prod.fst =
      List.range' (sequence + 1) (min count (j.sequence - sequence)) := by
  rw [map_take, j.map_after h hfirst]
  rcases le_total count (j.sequence - sequence) with hle | hle
  · rw [take_range'_of_length_ge hle, min_eq_left hle]
  · rw [take_range'_of_length_le hle, min_eq_right hle]

end

theorem after_of_events_eq_nil (h : j.events = []) (sequence : ℕ) : j.after sequence = [] := by
  rw [after, h, filter_nil]

theorem takeWhile_reverse (sequence : ℕ) :
    j.events.reverse.takeWhile (fun event => decide (sequence < event.1)) =
      (j.after sequence).reverse := by
  have hsorted : j.events.Pairwise fun a b => a.1 < b.1 := by
    have h : (j.events.map Prod.fst).Pairwise (· < ·) := by
      rw [j.consecutive]
      exact pairwise_lt_range'
    exact pairwise_map.mp h
  unfold after
  generalize j.events = events at hsorted ⊢
  induction events using List.reverseRecOn with
  | nil => rfl
  | append_singleton events event ih =>
    obtain ⟨hbefore, -, hlast⟩ := pairwise_append.mp hsorted
    rw [reverse_append, filter_append]
    by_cases hlt : sequence < event.1
    · simp [hlt, ih hbefore]
    · -- what stands before is not after the number either
      have hnone : events.filter (fun event => decide (sequence < event.1)) = [] := by
        refine filter_eq_nil_iff.mpr fun other hother => ?_
        have := hlast other hother event (mem_singleton_self _)
        simp only [decide_eq_true_eq]
        omega
      simp [hlt, hnone]

structure Since (sequence : ℕ) (told : List α) : Prop where
  count : j.sequence = sequence + told.length
  kept : (j.after sequence).map Prod.snd <:+ told

variable {j} {sequence : ℕ} {told : List α}

theorem after_sequence : j.after j.sequence = [] := by
  refine filter_eq_nil_iff.mpr fun event hevent => ?_
  have := (j.mem_events_bounds hevent).2
  simp only [decide_eq_true_eq]
  omega

theorem since_sequence : j.Since j.sequence [] where
  count := rfl
  kept := by
    rw [after_sequence]
    exact suffix_rfl

theorem Since.append (h : j.Since sequence told) (kept : ℕ) (entry : α) :
    (j.append kept entry).Since sequence (told ++ [entry]) where
  count := by
    rw [append_sequence, h.count, length_append, length_singleton]
    rfl
  kept := by
    have hafter : (j.events ++ [(j.sequence + 1, entry)]).filter
        (fun event => decide (sequence < event.1)) = j.after sequence ++ [(j.sequence + 1, entry)] := by
      have hlt : sequence < j.sequence + 1 := by
        have := h.count
        omega
      rw [filter_append, filter_cons_of_pos (by simpa using hlt), filter_nil]
      rfl
    have hdropped := ((drop_suffix ((j.events ++ [(j.sequence + 1, entry)]).length - kept)
      (j.events ++ [(j.sequence + 1, entry)])).filter
        (fun event => decide (sequence < event.1))).map Prod.snd
    rw [hafter, map_append, map_singleton] at hdropped
    refine hdropped.trans ?_
    obtain ⟨before, hbefore⟩ := h.kept
    exact ⟨before, by rw [← hbefore, append_assoc]⟩

theorem Since.clear (h : j.Since sequence told) : j.clear.Since sequence told where
  count := h.count
  kept := nil_suffix

theorem Since.eq (h : j.Since sequence told) (hevents : j.events ≠ [])
    (hfirst : ∀ first ∈ j.first, first ≤ sequence + 1) :
    (j.after sequence).map Prod.snd = told := by
  refine h.kept.eq_of_length ?_
  have hlength := congrArg List.length (j.map_after hevents hfirst)
  rw [length_map, length_range'] at hlength
  have := h.count
  rw [length_map]
  omega

end Journal
