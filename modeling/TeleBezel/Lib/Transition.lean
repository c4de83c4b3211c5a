import Mathlib.Data.List.Basic
import Mathlib.Data.List.Induction
import Mathlib.Order.WellFounded
import Mathlib.Tactic.Ring

/-!
# Runs of a labelled transition relation

A system is a relation `step s e s'` between a state, an event and the next state. A run takes
its events in order; a condition on the state before a step and on its event cuts the system
down to the steps that meet it.

## Main results

* `Run.invariant`, `Run.append`: what every step preserves, every run preserves; runs compose
* `run_of_check`, `always_of_check`, `always_iff_check`: what events that meet a condition keep
* `leads_to`: a measure that some step after each lowers, and none raises, leads to the goal
-/

open List

namespace Transition

variable {σ ε : Type*}

/-- The events `es`, taken in order, lead from the first state to the last. -/
inductive Run (step : σ → ε → σ → Prop) : σ → List ε → σ → Prop
  | nil (s : σ) : Run step s [] s
  | snoc {s s' s'' : σ} {es : List ε} {e : ε} :
      Run step s es s' → step s' e s'' → Run step s (es ++ [e]) s''

/-- The steps that start within a condition on the state before them and on their event. -/
def Within (ok : σ → ε → Prop) (step : σ → ε → σ → Prop) : σ → ε → σ → Prop :=
  fun s e s' => ok s e ∧ step s e s'

/-- The steps to states within a condition. -/
def Keeping (q : σ → Prop) (step : σ → ε → σ → Prop) : σ → ε → σ → Prop :=
  fun s e s' => step s e s' ∧ q s'

variable (f : σ → ε → σ) (p : σ → ε → Prop)

/-- Some step of the run was of the kind `p`, seen from the state before it. -/
def Sometime (f : σ → ε → σ) (p : σ → ε → Prop) (s : σ) (es : List ε) : Prop :=
  ∃ before e, before ++ [e] <+: es ∧ p (before.foldl f s) e

theorem not_sometime_nil (s : σ) : ¬ Sometime f p s [] := by
  rintro ⟨before, e, h, -⟩
  simp at h

theorem sometime_snoc (s : σ) (es : List ε) (e : ε) :
    Sometime f p s (es ++ [e]) ↔ Sometime f p s es ∨ p (es.foldl f s) e := by
  constructor
  · rintro ⟨before, e', h, hp⟩
    rcases prefix_concat_iff.mp h with h | h
    · obtain ⟨rfl, rfl⟩ := append_inj' h rfl |>.imp_right singleton_inj.mp
      exact .inr hp
    · exact .inl ⟨before, e', h, hp⟩
  · rintro (⟨before, e', h, hp⟩ | hp)
    · exact ⟨before, e', h.trans (prefix_append es [e]), hp⟩
    · exact ⟨es, e, prefix_refl _, hp⟩

variable {step : σ → ε → σ → Prop} {es : List ε} {s : σ}

/-- **Invariants.** What holds at first and survives every step holds after every run. -/
theorem Run.invariant (inv : σ → Prop) (hstep : ∀ s e s', inv s → step s e s' → inv s')
    {s' : σ} (hrun : Run step s es s') (hs : inv s) : inv s' := by
  induction hrun with
  | nil => exact hs
  | snoc _ he ih => exact hstep _ _ _ ih he

theorem Run.append {s' s'' : σ} {fs : List ε} (h : Run step s es s')
    (h' : Run step s' fs s'') : Run step s (es ++ fs) s'' := by
  induction h' with
  | nil => simpa using h
  | snoc _ he ih => rw [← append_assoc]; exact ih.snoc he

theorem Run.mono {step' : σ → ε → σ → Prop} (hle : ∀ s e s', step s e s' → step' s e s')
    {s' : σ} (h : Run step s es s') : Run step' s es s' := by
  induction h with
  | nil => exact Run.nil _
  | snoc _ he ih => exact ih.snoc (hle _ _ _ he)

theorem run_function_iff (s : σ) (es : List ε) (s' : σ) :
    Run (fun s e s' => f s e = s') s es s' ↔ es.foldl f s = s' := by
  constructor
  · intro h
    induction h with
    | nil => rfl
    | snoc _ he ih => rw [foldl_append, ih]; exact he
  · rintro rfl
    induction es using List.reverseRecOn with
    | nil => exact Run.nil _
    | append_singleton es e ih =>
      refine ih.snoc ?_
      rw [foldl_append]
      rfl

variable {ok : σ → ε → Prop}

theorem run_within (s : σ) (hok : ∀ e ∈ es, ∀ s, ok s e) :
    Run (Within ok fun s e s' => f s e = s') s es (es.foldl f s) := by
  induction es using List.reverseRecOn with
  | nil => exact Run.nil _
  | append_singleton es e ih =>
    have hprefix := ih fun e he => hok e (mem_append_left _ he)
    refine hprefix.snoc ⟨hok e (by simp) _, ?_⟩
    rw [foldl_append]
    rfl

/-- Every event meets its condition. -/
def check (f : σ → ε → σ) (ok : σ → ε → Prop) [∀ s e, Decidable (ok s e)] : σ → List ε → Bool
  | _, [] => true
  | s, e :: es => decide (ok s e) && check f ok (f s e) es

theorem run_of_check [∀ s e, Decidable (ok s e)] (hcheck : check f ok s es = true) :
    Run (Within ok fun s e s' => f s e = s') s es (es.foldl f s) := by
  induction es generalizing s with
  | nil => exact Run.nil s
  | cons e es ih =>
    rw [check, Bool.and_eq_true, decide_eq_true_eq] at hcheck
    have hfirst : Run (Within ok fun s e s' => f s e = s') s [e] (f s e) :=
      (Run.nil s).snoc ⟨hcheck.1, rfl⟩
    exact hfirst.append (ih hcheck.2)

variable {inv : σ → Prop}

theorem always_of_check [∀ s e, Decidable (ok s e)]
    (hstep : ∀ s, ∀ e ∈ es, inv s → ok s e → inv (f s e))
    (hs : inv s) (hcheck : check f ok s es = true) :
    ∀ fs, fs <+: es → inv (fs.foldl f s) := by
  induction es generalizing s with
  | nil =>
    intro fs h
    rw [prefix_nil.mp h]
    exact hs
  | cons e es ih =>
    rw [check, Bool.and_eq_true, decide_eq_true_eq] at hcheck
    intro fs h
    cases fs with
    | nil => exact hs
    | cons e' fs =>
      rw [cons_prefix_cons] at h
      obtain ⟨rfl, h⟩ := h
      exact ih (fun s e he => hstep s e (mem_cons_of_mem _ he))
        (hstep s e' mem_cons_self hs hcheck.1) hcheck.2 fs h

theorem always_while (cond inv : σ → Prop) (hs : inv s)
    (hstep : ∀ s e, cond s → cond (f s e) → inv s → inv (f s e)) (es : List ε)
    (hcond : ∀ fs, fs <+: es → cond (fs.foldl f s)) : inv (es.foldl f s) := by
  induction es using List.reverseRecOn with
  | nil => exact hs
  | append_singleton es e ih =>
    have hbefore : ∀ fs, fs <+: es → cond (fs.foldl f s) := fun fs h =>
      hcond fs (h.trans (prefix_append es [e]))
    rw [foldl_append]
    refine hstep _ e (hbefore es (prefix_refl es)) ?_ (ih hbefore)
    have hlast := hcond (es ++ [e]) (prefix_refl _)
    rwa [foldl_append] at hlast

/-- **Steps decide for states.** If a property holds after a step exactly when the step meets a
condition, it holds in every state of a run exactly when every step does. -/
theorem always_iff_check (f : σ → ε → σ) {ok : σ → ε → Prop} [∀ s e, Decidable (ok s e)]
    {inv prop : σ → Prop} (hstep : ∀ s e, inv s → (prop (f s e) ↔ ok s e))
    (hinv : ∀ s e, inv s → ok s e → inv (f s e)) {s : σ} (hs : inv s) (hprop : prop s)
    (es : List ε) :
    (∀ fs, fs <+: es → prop (fs.foldl f s)) ↔ check f ok s es = true := by
  induction es generalizing s with
  | nil =>
    refine iff_of_true (fun fs h => ?_) rfl
    rw [prefix_nil.mp h]
    exact hprop
  | cons e es ih =>
    rw [check, Bool.and_eq_true, decide_eq_true_eq]
    constructor
    · intro h
      have hok : ok s e := (hstep s e hs).mp (h [e] (by simp))
      refine ⟨hok, (ih (hinv s e hs hok) ((hstep s e hs).mpr hok)).mp fun fs hprefix => ?_⟩
      exact h (e :: fs) (by simpa using hprefix)
    · rintro ⟨hok, hcheck⟩ fs h
      cases fs with
      | nil => exact hprop
      | cons e' fs =>
        rw [cons_prefix_cons] at h
        obtain ⟨rfl, h⟩ := h
        exact (ih (hinv s e' hs hok) ((hstep s e' hs).mpr hok)).mpr hcheck fs h

/-- **Steps decide for runs.** If a preorder on the states holds across a step exactly when the step
meets a condition, it holds between any two states of a run exactly when every step does. -/
theorem related_iff_check (f : σ → ε → σ) {ok : σ → ε → Prop} [∀ s e, Decidable (ok s e)]
    {inv : σ → Prop} {rel : σ → σ → Prop} (hrefl : ∀ s, rel s s)
    (htrans : ∀ s t u, rel s t → rel t u → rel s u)
    (hstep : ∀ s e, inv s → (rel s (f s e) ↔ ok s e))
    (hinv : ∀ s e, inv s → ok s e → inv (f s e)) {s : σ} (hs : inv s) (es : List ε) :
    (∀ fs gs, fs ++ gs <+: es → rel (fs.foldl f s) ((fs ++ gs).foldl f s)) ↔
      check f ok s es = true := by
  induction es generalizing s with
  | nil =>
    refine iff_of_true (fun fs gs h => ?_) rfl
    obtain ⟨rfl, rfl⟩ := append_eq_nil_iff.mp (prefix_nil.mp h)
    exact hrefl s
  | cons e es ih =>
    rw [check, Bool.and_eq_true, decide_eq_true_eq]
    constructor
    · intro h
      have hok : ok s e := (hstep s e hs).mp (h [] [e] (by simp))
      refine ⟨hok, (ih (hinv s e hs hok)).mp fun fs gs hprefix => ?_⟩
      exact h (e :: fs) gs (by simpa using hprefix)
    · rintro ⟨hok, hcheck⟩ fs gs h
      have hrest := (ih (hinv s e hs hok)).mpr hcheck
      cases fs with
      | cons e' fs =>
        rw [cons_append, cons_prefix_cons] at h
        obtain ⟨rfl, h⟩ := h
        exact hrest fs gs h
      | nil =>
        cases gs with
        | nil => exact hrefl s
        | cons e' gs =>
          rw [nil_append, cons_prefix_cons] at h
          obtain ⟨rfl, h⟩ := h
          exact htrans _ _ _ ((hstep s e' hs).mpr hok) (hrest [] gs h)

/-! ### Runs that do not end -/

def trace (f : σ → ε → σ) (s : σ) (es : ℕ → ε) : ℕ → σ
  | 0 => s
  | n + 1 => f (trace f s es n) (es n)

theorem trace_eq_foldl (s : σ) (es : ℕ → ε) (n : ℕ) :
    trace f s es n = ((List.range n).map es).foldl f s := by
  induction n with
  | zero => rfl
  | succ n ih => rw [range_succ, map_append, foldl_append, ← ih]; rfl

/-- **Progress.** If no step raises a rank while the goal is ahead, and after each state comes a step that
lowers it, the goal is reached. -/
theorem leads_to {α : Type*} [Preorder α] [WellFoundedLT α] {acts goal : ℕ → Prop}
    {ahead : ℕ → α → Prop} (hacts : ∀ n, ∃ m, n ≤ m ∧ acts m)
    (hstep : ∀ n r, ahead n r → goal n ∨ ∃ r' ≤ r, ahead (n + 1) r')
    (hact : ∀ n r, acts n → ahead n r → goal n ∨ ∃ r' < r, ahead (n + 1) r') {n : ℕ} {r : α}
    (h : ahead n r) : ∃ m, n ≤ m ∧ goal m := by
  induction r using WellFoundedLT.induction generalizing n with
  | ind r ih =>
    obtain ⟨m, hm, hacting⟩ := hacts n
    obtain ⟨turns, rfl⟩ := Nat.exists_eq_add_of_le hm
    -- up to the step that lowers the rank, the others keep it
    suffices hwait : ∀ turns k r', acts (k + turns) → r' ≤ r → ahead k r' → ∃ m, k ≤ m ∧ goal m from
      hwait turns n r hacting le_rfl h
    intro turns
    induction turns with
    | zero =>
      intro k r' hacting hle hahead
      rcases hact k r' hacting hahead with hgoal | ⟨r'', hlt, hahead⟩
      · exact ⟨k, le_rfl, hgoal⟩
      · obtain ⟨m, hm, hgoal⟩ := ih r'' (hlt.trans_le hle) hahead
        exact ⟨m, by omega, hgoal⟩
    | succ turns ihturns =>
      intro k r' hacting hle hahead
      rcases hstep k r' hahead with hgoal | ⟨r'', hle', hahead⟩
      · exact ⟨k, le_rfl, hgoal⟩
      · obtain ⟨m, hm, hgoal⟩ := ihturns (k + 1) r'' (by rwa [Nat.add_right_comm k 1 turns])
          (hle'.trans hle) hahead
        exact ⟨m, by omega, hgoal⟩

end Transition
