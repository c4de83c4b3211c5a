import Mathlib.Data.List.MinMax
import TeleBezel.Lib.Word

/-!
# Deadlines on a clock that wraps

The clock counts in a 32-bit word. It has come to a deadline when the difference of the two, read as a
signed number, is not negative. A timer is armed for the deadline that it comes to first, for one unit
at least.

## Main results

* `passed_add_iff`: what is left to a deadline is when the clock comes to it.
* `delay_spec`: what the timer is armed for.
-/

open List

namespace Deadline

open Word

/-- The clock has come to a deadline. -/
def passed (now deadline : ℕ) : Bool := uint32 ((now : ℤ) - deadline) < 2147483648

/-- What is left to a deadline. -/
def remaining (now deadline : ℕ) : ℕ :=
  if passed now deadline then 0 else uint32 ((deadline : ℤ) - now)

/-- The loop that looks for the deadline to which the least is left. -/
def earliest (now : ℕ) (deadlines : List ℕ) : Option ℕ :=
  deadlines.foldl (fun least deadline => match least with
    | none => some (remaining now deadline)
    | some least => some
      (if remaining now deadline < least then remaining now deadline else least)) none

/-- What the timer is armed for. -/
def delay (now : ℕ) (deadlines : List ℕ) : Option ℕ :=
  (earliest now deadlines).map fun least => if least = 0 then 1 else least

theorem passed_add_iff {now deadline later : ℕ} (hlater : later ≤ remaining now deadline) :
    passed (now + later) deadline = true ↔ later = remaining now deadline := by
  have hpassed : ∀ now, passed now deadline = true ↔ uint32 ((now : ℤ) - deadline) < 2147483648 :=
    fun _ => decide_eq_true_iff
  unfold remaining at *
  split_ifs at hlater ⊢ with hnow
  · obtain rfl := Nat.le_zero.mp hlater
    exact iff_of_true hnow rfl
  · rw [hpassed] at hnow ⊢
    simp only [uint32] at hnow hlater ⊢
    omega

theorem earliest_eq_min? (now : ℕ) (deadlines : List ℕ) :
    earliest now deadlines = (deadlines.map (remaining now)).min? := by
  have hfrom : ∀ (deadlines : List ℕ) (least : ℕ), deadlines.foldl (fun least deadline =>
      match least with
      | none => some (remaining now deadline)
      | some least => some
        (if remaining now deadline < least then remaining now deadline else least)) (some least) =
      some ((deadlines.map (remaining now)).foldl min least) := by
    intro deadlines
    induction deadlines with
    | nil => exact fun _ => rfl
    | cons deadline deadlines ih =>
      intro least
      rw [foldl_cons, map_cons, foldl_cons, ih]
      congr 2
      split <;> omega
  cases deadlines with
  | nil => rfl
  | cons deadline deadlines => exact hfrom deadlines _

/-- **The timer** is off if there is no deadline; else it is armed for what is left to one to which no
more is left than to any other, and for one unit at least. -/
theorem delay_spec (now : ℕ) (deadlines : List ℕ) :
    (delay now deadlines = none ↔ deadlines = []) ∧
      ∀ length, delay now deadlines = some length →
        ∃ first ∈ deadlines, length = max 1 (remaining now first) ∧
          ∀ other ∈ deadlines, remaining now first ≤ remaining now other := by
  rw [delay, earliest_eq_min?, Option.map_eq_none_iff, min?_eq_none_iff, map_eq_nil_iff]
  refine ⟨Iff.rfl, fun length hlength => ?_⟩
  obtain ⟨least, hleast, rfl⟩ := Option.map_eq_some_iff.mp hlength
  obtain ⟨hmem, hbelow⟩ := min?_eq_some_iff.mp hleast
  obtain ⟨first, hfirst, rfl⟩ := mem_map.mp hmem
  refine ⟨first, hfirst, ?_, fun other hother => hbelow _ (mem_map_of_mem hother)⟩
  split <;> omega

end Deadline
