import Mathlib.Tactic.Linarith
import Mathlib.Tactic.Ring
import TeleBezel.Lib.Transition
import TeleBezel.Lib.Word

/-!
# Pulling to refresh

`app/src/c/pull.c`: one press arms the gesture, and another one within a window lets it rise to the
full level, where the port `trigger` is called; a drag that is let go at the full level calls it too. The
clock is read as a 32-bit number of milliseconds. A call reads it once or twice; the two readings are
given with it, as the times that have passed.
-/

namespace Watch

open Word Transition

inductive TbPullPhase
  | idle
  | risingHalf
  | waiting
  | risingFull
  | holding
  | falling
  | dragging
deriving DecidableEq

def tbPullFull : ℕ := 1000

def tbPullHalf : ℕ := 500

def tbPullFrame : ℕ := 33

def tbPullWindow : ℕ := 450

/-- `TbPull`, with the time until the tick that is scheduled, and how often `trigger` was called. -/
structure TbPull where
  phase : TbPullPhase := .idle
  level : ℕ := 0
  «from» : ℕ := 0
  «to» : ℕ := 0
  started : ℕ := 0
  duration : ℕ := 0
  armedUntil : ℕ := 0
  timer : Option ℕ := none
  triggers : ℕ := 0

inductive PullCall
  | press
  | drag (level : ℕ)
  | release
  | tick
  | reset
deriving DecidableEq

namespace TbPull

variable (pull : TbPull)

def animate (now : ℕ) (phase : TbPullPhase) («to» duration : ℕ) : TbPull :=
  { pull with
    phase
    «from» := pull.level
    «to»
    started := now
    duration
    timer := some tbPullFrame }

def fire (now : ℕ) : TbPull :=
  let pull := { pull with level := tbPullFull, armedUntil := 0 }.animate now .holding tbPullFull 120
  { pull with triggers := pull.triggers + 1 }

def eased (elapsed : ℕ) : ℕ :=
  if pull.duration = 0 ∨ pull.duration ≤ elapsed then pull.«to»
  else
    let span : ℤ := (pull.«to» : ℤ) - pull.from
    let progress : ℤ := (uint32 (elapsed * 1000 : ℕ) / pull.duration : ℕ)
    let smooth := (progress * progress * (3000 - 2 * progress)).tdiv 1000000
    uint16 (pull.from + (span * smooth).tdiv 1000)

def settle (now : ℕ) : TbPull :=
  match pull.phase with
  | .risingHalf =>
    let left := if now < pull.armedUntil then pull.armedUntil - now else 0
    { pull with phase := .waiting, timer := some (if 0 < left then left else 1) }
  | .waiting => { pull with armedUntil := 0 }.animate now .falling 0 300
  | .risingFull => pull.fire now
  | .holding => pull.animate now .falling 0 300
  | .falling => { pull with phase := .idle }
  | .idle | .dragging => pull

/-- `tb_pull_press` and `tb_pull_drag` do nothing in these phases. -/
def rising : Bool := pull.phase = .risingFull || pull.phase = .holding

/-- `tb_pull_press`. -/
def press (current now : ℕ) : TbPull :=
  if pull.rising ∨ pull.phase = .dragging then pull
  else if pull.armedUntil ≠ 0 ∧ current < pull.armedUntil then
    let duration := (tbPullFull - pull.level) * 120 / tbPullFull
    pull.animate now .risingFull tbPullFull (if 0 < duration then duration else 1)
  else
    let duration := if tbPullHalf ≤ pull.level then 1 else (tbPullHalf - pull.level) * 150 / tbPullHalf
    { pull with armedUntil := uint32 (current + tbPullWindow : ℕ) }.animate now .risingHalf tbPullHalf duration

/-- `tb_pull_drag`. -/
def drag (level : ℕ) : TbPull :=
  if pull.rising then pull
  else
    { pull with
      timer := none
      phase := .dragging
      armedUntil := 0
      level := if tbPullFull < level then tbPullFull else level }

/-- `tb_pull_release`. -/
def release (now : ℕ) : TbPull :=
  if pull.phase ≠ .dragging then pull
  else if tbPullFull ≤ pull.level then pull.fire now
  else pull.animate now .falling 0 (pull.level * 250 / tbPullFull + 1)

/-- `tb_pull_tick`, when the timer has run out. -/
def tick (current now : ℕ) : TbPull :=
  let pull := { pull with timer := none }
  if pull.phase = .idle ∨ pull.phase = .dragging then pull
  else if pull.phase = .waiting then
    if pull.armedUntil ≤ current then pull.settle now
    else { pull with timer := some (uint32 ((pull.armedUntil : ℤ) - now)) }
  else
    let elapsed := uint32 ((current : ℤ) - pull.started)
    let pull := { pull with level := pull.eased elapsed }
    if pull.duration ≤ elapsed then pull.settle now else { pull with timer := some tbPullFrame }

/-- `tb_pull_reset`. -/
def reset : TbPull :=
  { pull with timer := none, phase := .idle, level := 0, armedUntil := 0 }

def step (current now : ℕ) : PullCall → TbPull
  | .press => pull.press current now
  | .drag level => pull.drag level
  | .release => pull.release current
  | .tick => pull.tick current now
  | .reset => pull.reset

end TbPull

def clockTurn : ℕ := 4294967296

/-- The gesture at a time, and the time of the press that armed it and was not followed by another one
within the window, nor by a drag or a reset. -/
structure Gesture where
  pull : TbPull := {}
  time : ℕ
  armed : Option ℕ := none

abbrev TimedCall := PullCall × ℕ × ℕ

namespace Gesture

variable (gesture : Gesture) (call : TimedCall)

/-- The times of the two readings. -/
def first : ℕ := gesture.time + call.2.1

@[inherit_doc first]
def second : ℕ := gesture.first call + call.2.2

def Again : Prop :=
  call.1 = .press ∧ ∃ armed ∈ gesture.armed, gesture.first call < armed + tbPullWindow

instance (gesture : Gesture) (call : TimedCall) : Decidable (gesture.Again call) :=
  inferInstanceAs (Decidable (_ ∧ _))

def arms : Option ℕ :=
  match call.1 with
  | .press =>
    if gesture.Again call then none
    else if gesture.pull.rising ∨ gesture.pull.phase = .dragging then gesture.armed
    else some (gesture.first call)
  | .drag _ => if gesture.pull.rising then gesture.armed else none
  | .release | .tick => gesture.armed
  | .reset => none

def step (gesture : Gesture) (call : TimedCall) : Gesture where
  pull := gesture.pull.step (gesture.first call % clockTurn) (gesture.second call % clockTurn) call.1
  time := gesture.second call
  armed := gesture.arms call

def Fires : Prop :=
  call.1 = .tick ∧ gesture.pull.phase = .risingFull ∧
      gesture.pull.duration ≤
        uint32 ((gesture.first call % clockTurn : ℕ) - (gesture.pull.started : ℤ)) ∨
    call.1 = .release ∧ gesture.pull.phase = .dragging ∧ tbPullFull ≤ gesture.pull.level

instance (gesture : Gesture) (call : TimedCall) : Decidable (gesture.Fires call) :=
  inferInstanceAs (Decidable (_ ∨ _))

/-- **What is asked of a call**: the port is called once at the end of a rise and on a release at the full
level, and at no other time; a second press within the window begins a rise, and nothing else does; the
level stays in its range, and a tick is scheduled soon. -/
structure Right (gesture : Gesture) (call : TimedCall) : Prop where
  triggers : (gesture.step call).pull.triggers =
    gesture.pull.triggers + if gesture.Fires call then 1 else 0
  begins : gesture.Again call → (gesture.step call).pull.phase = .risingFull
  only : (gesture.step call).pull.phase = .risingFull →
    gesture.pull.phase = .risingFull ∨ gesture.Again call
  level : (gesture.step call).pull.level ≤ tbPullFull
  soon : (gesture.step call).pull.phase ≠ .idle → (gesture.step call).pull.phase ≠ .dragging →
    ∃ time ∈ (gesture.step call).pull.timer, time ≤ tbPullWindow

def Told (time : ℕ) : Prop :=
  ∀ armed ∈ gesture.armed, armed + tbPullWindow ≤ time →
    gesture.pull.armedUntil ≤ time % clockTurn

/-- **The clock does not mislead**: it does not wrap around within the window of a press that arms the
gesture, nor is the window over and the clock wrapped around when it is next compared with the end of
the window; and a tick does not come to the end of the window between its two readings. -/
def Clear : Prop :=
  match call.1 with
  | .press =>
    gesture.Told (gesture.first call) ∧
      (gesture.Again call ∨ gesture.pull.rising ∨ gesture.pull.phase = .dragging ∨
        gesture.first call % clockTurn + tbPullWindow < clockTurn)
  | .tick =>
    (gesture.pull.phase = .waiting →
      gesture.Told (gesture.first call) ∧ ∀ armed ∈ gesture.armed,
        gesture.first call < armed + tbPullWindow → gesture.second call ≤ armed + tbPullWindow) ∧
    (gesture.pull.phase = .risingHalf → gesture.Told (gesture.second call))
  | .drag _ | .release | .reset => True

instance (gesture : Gesture) (time : ℕ) : Decidable (gesture.Told time) :=
  inferInstanceAs (Decidable (∀ _ ∈ _, _))

instance (gesture : Gesture) : (call : TimedCall) → Decidable (gesture.Clear call)
  | (.press, _) | (.tick, _) => inferInstanceAs (Decidable (_ ∧ _))
  | (.drag _, _) | (.release, _) | (.reset, _) => isTrue trivial

/-! ### What a run keeps -/

def Waits (phase : TbPullPhase) : Prop := phase = .risingHalf ∨ phase = .waiting

structure Sound (gesture : Gesture) : Prop where
  level : gesture.pull.level ≤ tbPullFull
  «from» : gesture.pull.from ≤ tbPullFull
  «to» : gesture.pull.«to» ≤ tbPullFull
  duration : gesture.pull.duration ≤ 300
  soon : gesture.pull.phase ≠ .idle → gesture.pull.phase ≠ .dragging →
    ∃ time ∈ gesture.pull.timer, time ≤ tbPullWindow
  waits : Waits gesture.pull.phase → ∃ armed ∈ gesture.armed, armed ≤ gesture.time ∧
    gesture.pull.armedUntil = armed % clockTurn + tbPullWindow ∧
    armed % clockTurn + tbPullWindow < clockTurn
  rests : ¬ Waits gesture.pull.phase → ∀ armed ∈ gesture.armed, armed + tbPullWindow ≤ gesture.time
  disarmed : ¬ Waits gesture.pull.phase → gesture.pull.phase ≠ .risingFull → gesture.pull.armedUntil = 0
  used : gesture.pull.rising ∨ gesture.pull.phase = .dragging → gesture.armed = none

end Gesture

theorem TbPull.eased_le {pull : TbPull} (hfrom : pull.from ≤ tbPullFull) (hto : pull.«to» ≤ tbPullFull)
    (hduration : pull.duration ≤ 300) (elapsed : ℕ) : pull.eased elapsed ≤ tbPullFull := by
  unfold eased
  split_ifs with hover
  · exact hto
  · simp only [not_or, not_le] at hover
    obtain ⟨hpos, hlt⟩ := hover
    have hword : uint32 (elapsed * 1000 : ℕ) = elapsed * 1000 := by
      unfold uint32
      omega
    have hprogress : elapsed * 1000 / pull.duration ≤ 1000 := by
      apply Nat.div_le_of_le_mul
      exact Nat.mul_le_mul_right 1000 hlt.le
    dsimp only
    rw [hword]
    generalize elapsed * 1000 / pull.duration = p at hprogress
    -- the easing of a part of the way is a part of the way
    have hsquare : 0 ≤ (p : ℤ) * p * (3000 - 2 * p) ∧ (p : ℤ) * p * (3000 - 2 * p) ≤ 1000000000 := by
      have hp : (p : ℤ) ≤ 1000 := by exact_mod_cast hprogress
      have hp' : (0 : ℤ) ≤ p := Int.natCast_nonneg p
      constructor
      · exact mul_nonneg (mul_nonneg hp' hp') (by omega)
      · nlinarith [mul_nonneg hp' hp', mul_nonneg (sub_nonneg.mpr hp) (mul_nonneg hp' hp'),
          mul_nonneg (sub_nonneg.mpr hp) (sub_nonneg.mpr hp), mul_nonneg (mul_nonneg (sub_nonneg.mpr hp)
          (sub_nonneg.mpr hp)) hp']
    have hsmooth : 0 ≤ ((p : ℤ) * p * (3000 - 2 * p)).tdiv 1000000 ∧
        ((p : ℤ) * p * (3000 - 2 * p)).tdiv 1000000 ≤ 1000 := by
      rw [Int.tdiv_eq_ediv_of_nonneg hsquare.1]
      omega
    generalize ((p : ℤ) * p * (3000 - 2 * p)).tdiv 1000000 = smooth at hsmooth
    have hbetween : 0 ≤ (pull.from : ℤ) + (((pull.«to» : ℤ) - pull.from) * smooth).tdiv 1000 ∧
        (pull.from : ℤ) + (((pull.«to» : ℤ) - pull.from) * smooth).tdiv 1000 ≤ 1000 := by
      unfold tbPullFull at hfrom hto
      rcases Int.le_total pull.from pull.«to» with hup | hdown
      · have hspan : 0 ≤ ((pull.«to» : ℤ) - pull.from) * smooth :=
          mul_nonneg (by omega) hsmooth.1
        have hle : ((pull.«to» : ℤ) - pull.from) * smooth ≤ ((pull.«to» : ℤ) - pull.from) * 1000 :=
          mul_le_mul_of_nonneg_left hsmooth.2 (by omega)
        rw [Int.tdiv_eq_ediv_of_nonneg hspan]
        omega
      · have hspan : 0 ≤ ((pull.from : ℤ) - pull.«to») * smooth :=
          mul_nonneg (by omega) hsmooth.1
        have hle : ((pull.from : ℤ) - pull.«to») * smooth ≤ ((pull.from : ℤ) - pull.«to») * 1000 :=
          mul_le_mul_of_nonneg_left hsmooth.2 (by omega)
        have hneg : ((pull.«to» : ℤ) - pull.from) * smooth = -(((pull.from : ℤ) - pull.«to») * smooth) := by
          ring
        rw [hneg, Int.neg_tdiv, Int.tdiv_eq_ediv_of_nonneg hspan]
        omega
    unfold uint16 tbPullFull
    omega

namespace Gesture

variable {gesture : Gesture} {pull : TbPull} {armed : Option ℕ} {time now : ℕ}

theorem Sound.later (h : Sound gesture) (hlater : gesture.time ≤ time) :
    Sound { gesture with time } :=
  { h with
    waits := fun hwaits => by
      obtain ⟨armed, hmem, hle, hend⟩ := h.waits hwaits
      exact ⟨armed, hmem, hle.trans hlater, hend⟩
    rests := fun hrests armed hmem => (h.rests hrests armed hmem).trans hlater }

theorem sound_animate {phase : TbPullPhase} {«to» duration : ℕ} (hlevel : pull.level ≤ tbPullFull)
    (hto : «to» ≤ tbPullFull) (hduration : duration ≤ 300) (hphase : ¬ Waits phase)
    (hrests : ∀ a ∈ armed, a + tbPullWindow ≤ time)
    (hdisarmed : phase ≠ .risingFull → pull.armedUntil = 0)
    (hused : phase ≠ .falling → armed = none) :
    Sound ⟨pull.animate now phase «to» duration, time, armed⟩ where
  level := hlevel
  «from» := hlevel
  «to» := hto
  duration := hduration
  soon _ _ := ⟨tbPullFrame, rfl, by decide⟩
  waits h := absurd h hphase
  rests _ := hrests
  disarmed _ := hdisarmed
  used h := hused fun hfalling => by
    have hfalling : (pull.animate now phase «to» duration).phase = .falling := hfalling
    rw [TbPull.rising, hfalling] at h
    simp at h

theorem sound_fire (hrests : armed = none) : Sound ⟨pull.fire now, time, armed⟩ := by
  have h : Sound ⟨{ pull with level := tbPullFull, armedUntil := 0 }.animate now .holding tbPullFull 120,
      time, armed⟩ :=
    sound_animate (Nat.le_refl _) (Nat.le_refl _) (by decide) (by simp [Waits]) (by simp [hrests])
      (fun _ => rfl) (fun _ => hrests)
  exact { h with }

/-- **The comparison with the end of the window** is right when the clock does not mislead. -/
theorem Sound.before_iff (h : Sound gesture) (hwaits : Waits gesture.pull.phase)
    (hlater : gesture.time ≤ time) (htold : gesture.Told time) :
    ∃ armed, gesture.armed = some armed ∧ armed ≤ time ∧
      gesture.pull.armedUntil = armed % clockTurn + tbPullWindow ∧
      armed % clockTurn + tbPullWindow < clockTurn ∧
      (time % clockTurn < gesture.pull.armedUntil ↔ time < armed + tbPullWindow) := by
  obtain ⟨armed, hmem, hle, huntil, hturn⟩ := h.waits hwaits
  refine ⟨armed, hmem, hle.trans hlater, huntil, hturn, ?_⟩
  have hover := htold armed hmem
  unfold clockTurn tbPullWindow at *
  constructor
  · intro hlt
    by_contra hnot
    have := hover (by omega)
    omega
  · intro hlt
    omega

theorem Sound.again_iff (h : Sound gesture) {call : TimedCall} (hcall : call.1 = .press)
    (hfree : ¬ (gesture.pull.rising ∨ gesture.pull.phase = .dragging))
    (htold : gesture.Told (gesture.first call)) :
    gesture.pull.armedUntil ≠ 0 ∧ gesture.first call % clockTurn < gesture.pull.armedUntil ↔
      gesture.Again call := by
  have hlater : gesture.time ≤ gesture.first call := Nat.le_add_right _ _
  rw [Again, and_iff_right hcall]
  by_cases hwaits : Waits gesture.pull.phase
  · obtain ⟨armed, harmed, -, huntil, -, hiff⟩ := h.before_iff hwaits hlater htold
    rw [hiff, harmed, huntil]
    simp [tbPullWindow]
  · have hphase : gesture.pull.phase ≠ .risingFull := by
      intro hphase
      simp [TbPull.rising, hphase] at hfree
    rw [h.disarmed hwaits hphase]
    refine iff_of_false (fun hnot => hnot.1 rfl) ?_
    rintro ⟨armed, hmem, hlt⟩
    have hle := h.rests hwaits armed hmem
    omega

/-! ### One call -/

variable (call : TimedCall)

theorem time_le_first : gesture.time ≤ gesture.first call := Nat.le_add_right _ _

theorem first_le_second : gesture.first call ≤ gesture.second call :=
  Nat.le_add_right _ _

theorem time_le_second : gesture.time ≤ gesture.second call :=
  (time_le_first call).trans (first_le_second call)

variable (waits : ℕ × ℕ)

theorem step_press (h : Sound gesture) (hclear : gesture.Clear (.press, waits)) :
    Sound (gesture.step (.press, waits)) ∧
      (gesture.step (.press, waits)).pull.triggers = gesture.pull.triggers ∧
      (gesture.Again (.press, waits) → (gesture.step (.press, waits)).pull.phase = .risingFull) ∧
      ((gesture.step (.press, waits)).pull.phase = .risingFull →
        gesture.pull.phase = .risingFull ∨ gesture.Again (.press, waits)) := by
  obtain ⟨htold, hturn⟩ := hclear
  simp only [step, TbPull.step, TbPull.press, arms]
  by_cases hfree : gesture.pull.rising ∨ gesture.pull.phase = .dragging
  · -- the press is ignored, and nothing is armed
    have hnone := h.used hfree
    have hagain : ¬ gesture.Again (.press, waits) := by simp [Again, hnone]
    rw [if_pos hfree, if_neg hagain, if_pos hfree]
    exact ⟨h.later (time_le_second _), rfl, fun hpress => absurd hpress hagain, .inl⟩
  · have hiff := h.again_iff rfl hfree htold
    rw [if_neg hfree]
    by_cases hagain : gesture.Again (.press, waits)
    · rw [if_pos (hiff.mpr hagain), if_pos hagain]
      refine ⟨sound_animate h.level (Nat.le_refl _) ?_ (by simp [Waits]) (by simp) (absurd rfl)
        fun _ => rfl, rfl, fun _ => rfl, fun _ => .inr hagain⟩
      have hlevel := h.level
      unfold tbPullFull at *
      split_ifs <;> omega
    · rw [if_neg (mt hiff.mp hagain), if_neg hagain, if_neg hfree]
      refine ⟨?_, rfl, fun hpress => absurd hpress hagain, nofun⟩
      have hroom : gesture.first (.press, waits) % clockTurn + tbPullWindow < clockTurn := by
        rcases hturn with hpress | hrising | hdrag | hroom
        · exact absurd hpress hagain
        · exact absurd (.inl hrising) hfree
        · exact absurd (.inr hdrag) hfree
        · exact hroom
      refine ⟨h.level, h.level, (by decide : tbPullHalf ≤ tbPullFull), ?_, fun _ _ => ⟨tbPullFrame, rfl, by decide⟩, fun _ => ?_,
        fun hrests => absurd (.inl rfl) hrests, fun hrests => absurd (.inl rfl) hrests, by
          simp [TbPull.rising, TbPull.animate]⟩
      · have hlevel := h.level
        show (if tbPullHalf ≤ gesture.pull.level then 1
          else (tbPullHalf - gesture.pull.level) * 150 / tbPullHalf) ≤ 300
        unfold tbPullHalf
        split_ifs <;> omega
      · refine ⟨_, rfl, first_le_second _, ?_, hroom⟩
        show uint32 (gesture.first (.press, waits) % clockTurn + tbPullWindow : ℕ) = _
        unfold uint32
        unfold clockTurn tbPullWindow at *
        omega

theorem step_drag (h : Sound gesture) (level : ℕ) :
    Sound (gesture.step (.drag level, waits)) ∧
      (gesture.step (.drag level, waits)).pull.triggers = gesture.pull.triggers ∧
      ((gesture.step (.drag level, waits)).pull.phase = .risingFull →
        gesture.pull.phase = .risingFull) := by
  simp only [step, TbPull.step, TbPull.drag, arms]
  by_cases hrising : gesture.pull.rising = true
  · rw [if_pos hrising, if_pos hrising]
    exact ⟨h.later (time_le_second _), rfl, id⟩
  · rw [if_neg hrising, if_neg hrising]
    refine ⟨⟨?_, h.from, h.to, h.duration, fun _ hdrag => absurd rfl hdrag, by simp [Waits], by simp,
      fun _ _ => rfl, fun _ => rfl⟩, rfl, nofun⟩
    dsimp only
    split_ifs <;> omega

theorem step_release (h : Sound gesture) :
    Sound (gesture.step (.release, waits)) ∧
      (gesture.step (.release, waits)).pull.triggers =
        gesture.pull.triggers + (if gesture.Fires (.release, waits) then 1 else 0) ∧
      ((gesture.step (.release, waits)).pull.phase = .risingFull →
        gesture.pull.phase = .risingFull) := by
  simp only [step, TbPull.step, TbPull.release, arms]
  by_cases hdrag : gesture.pull.phase = .dragging
  · have hnone := h.used (.inr hdrag)
    rw [if_neg (not_not_intro hdrag)]
    by_cases hfull : tbPullFull ≤ gesture.pull.level
    · have hfires : gesture.Fires (.release, waits) := .inr ⟨rfl, hdrag, hfull⟩
      rw [if_pos hfull, if_pos hfires]
      exact ⟨sound_fire hnone, rfl, nofun⟩
    · have hfires : ¬ gesture.Fires (.release, waits) := by simp [Fires, hfull]
      rw [if_neg hfull, if_neg hfires]
      refine ⟨sound_animate h.level (Nat.zero_le _) ?_ (by simp [Waits]) (by simp [hnone])
        (fun _ => h.disarmed (by simp [Waits, hdrag]) (by simp [hdrag])) (fun _ => hnone), rfl, nofun⟩
      have hlevel := h.level
      unfold tbPullFull at *
      omega
  · have hfires : ¬ gesture.Fires (.release, waits) := by simp [Fires, hdrag]
    rw [if_pos hdrag, if_neg hfires]
    exact ⟨h.later (time_le_second _), rfl, id⟩

theorem sound_settle {level : ℕ} (h : Sound gesture) (hlevel : level ≤ tbPullFull)
    (hbusy : gesture.pull.phase ≠ .idle ∧ gesture.pull.phase ≠ .dragging)
    (hwaits : gesture.pull.phase = .waiting → ∀ armed ∈ gesture.armed, armed + tbPullWindow ≤ time)
    (hlater : gesture.time ≤ time)
    (htold : gesture.pull.phase = .risingHalf → gesture.Told time) :
    Sound ⟨{ gesture.pull with timer := none, level }.settle (time % clockTurn), time, gesture.armed⟩ ∧
      ({ gesture.pull with timer := none, level }.settle (time % clockTurn)).triggers =
        gesture.pull.triggers + (if gesture.pull.phase = .risingFull then 1 else 0) ∧
      ({ gesture.pull with timer := none, level }.settle (time % clockTurn)).phase ≠ .risingFull := by
  have hrests := h.rests
  cases hphase : gesture.pull.phase with
  | idle => exact absurd hphase hbusy.1
  | dragging => exact absurd hphase hbusy.2
  | risingHalf =>
    obtain ⟨armed, harmed, hle, huntil, hturn, hiff⟩ :=
      h.before_iff (.inl hphase) hlater (htold hphase)
    simp only [TbPull.settle, hphase]
    refine ⟨⟨hlevel, h.from, h.to, h.duration, fun _ _ => ⟨_, rfl, ?_⟩,
      fun _ => ⟨armed, harmed, hle, huntil, hturn⟩, fun hrests => absurd (.inr rfl) hrests,
      fun hrests => absurd (.inr rfl) hrests, by simp [TbPull.rising]⟩, rfl, nofun⟩
    -- what is left of the window
    unfold clockTurn tbPullWindow at *
    split_ifs <;> omega
  | waiting =>
    simp only [TbPull.settle, hphase]
    exact ⟨sound_animate hlevel (Nat.zero_le _) (by decide) (by simp [Waits]) (hwaits hphase)
      (fun _ => rfl) (absurd rfl), rfl, nofun⟩
  | risingFull =>
    simp only [TbPull.settle, hphase]
    exact ⟨sound_fire (h.used (.inl (by simp [TbPull.rising, hphase]))), rfl, nofun⟩
  | holding =>
    simp only [TbPull.settle, hphase]
    have hnone := h.used (.inl (by simp [TbPull.rising, hphase]))
    exact ⟨sound_animate hlevel (Nat.zero_le _) (by decide) (by simp [Waits]) (by simp [hnone])
      (fun _ => h.disarmed (by simp [Waits, hphase]) (by simp [hphase])) (absurd rfl), rfl, nofun⟩
  | falling =>
    simp only [TbPull.settle, hphase]
    exact ⟨⟨hlevel, h.from, h.to, h.duration, fun hidle => absurd rfl hidle, by simp [Waits],
      fun _ armed hmem => (h.rests (by simp [Waits, hphase]) armed hmem).trans hlater,
      fun _ _ => h.disarmed (by simp [Waits, hphase]) (by simp [hphase]), by simp [TbPull.rising]⟩,
      rfl, nofun⟩

theorem step_tick (h : Sound gesture) (hclear : gesture.Clear (.tick, waits)) :
    Sound (gesture.step (.tick, waits)) ∧
      (gesture.step (.tick, waits)).pull.triggers =
        gesture.pull.triggers + (if gesture.Fires (.tick, waits) then 1 else 0) ∧
      ((gesture.step (.tick, waits)).pull.phase = .risingFull →
        gesture.pull.phase = .risingFull) := by
  obtain ⟨hwaiting, htold⟩ := hclear
  have hlater := @time_le_second gesture (.tick, waits)
  simp only [step, TbPull.step, TbPull.tick, arms]
  by_cases hbusy : gesture.pull.phase = .idle ∨ gesture.pull.phase = .dragging
  · have hfires : ¬ gesture.Fires (.tick, waits) := by
      rintro (⟨-, hphase, -⟩ | ⟨hcall, -⟩)
      · simp [hphase] at hbusy
      · cases hcall
    rw [if_pos hbusy, if_neg hfires]
    have hlate := h.later hlater
    exact ⟨{ hlate with
      soon := fun hidle hdrag => absurd hbusy (not_or.mpr ⟨hidle, hdrag⟩) }, rfl, id⟩
  · rw [if_neg hbusy]
    obtain ⟨hidle, hdrag⟩ := not_or.mp hbusy
    by_cases hphase : gesture.pull.phase = .waiting
    · obtain ⟨htold, hsecond⟩ := hwaiting hphase
      obtain ⟨armed, harmed, hle, huntil, hturn, hiff⟩ :=
        h.before_iff (.inr hphase) (time_le_first _) htold
      have hfires : ¬ gesture.Fires (.tick, waits) := by simp [Fires, hphase]
      rw [if_pos hphase, if_neg hfires]
      by_cases hover : gesture.pull.armedUntil ≤ gesture.first (.tick, waits) % clockTurn
      · have hended : ∀ a ∈ gesture.armed, a + tbPullWindow ≤ gesture.second (.tick, waits) := by
          rw [harmed]
          rintro a ⟨⟩
          have hmono := @first_le_second gesture (.tick, waits)
          have hnot := mt hiff.mpr (Nat.not_lt.mpr hover)
          omega
        obtain ⟨hsound, htriggers, hnot⟩ := sound_settle h h.level ⟨hidle, hdrag⟩ (fun _ => hended) hlater
          (by simp [hphase])
        rw [if_pos hover]
        exact ⟨hsound, by simpa [hphase] using htriggers, fun hrise => absurd hrise hnot⟩
      · rw [if_neg hover]
        have hbefore := hiff.mp (Nat.not_le.mp hover)
        have hlast := hsecond armed harmed hbefore
        have hlate := h.later hlater
        refine ⟨{ hlate with soon := fun _ _ => ⟨_, rfl, ?_⟩ }, rfl, fun hrise => ?_⟩
        · have hmono := @first_le_second gesture (.tick, waits)
          unfold uint32
          unfold clockTurn tbPullWindow at *
          omega
        · rw [hphase] at hrise
          cases hrise
    · rw [if_neg hphase]
      have heased : gesture.pull.eased (uint32 ((gesture.first (.tick, waits) % clockTurn : ℕ) -
          (gesture.pull.started : ℤ))) ≤ tbPullFull := TbPull.eased_le h.from h.to h.duration _
      have hsame : ({ gesture.pull with timer := none } : TbPull).eased = gesture.pull.eased := rfl
      rw [hsame]
      by_cases hover : gesture.pull.duration ≤ uint32 ((gesture.first (.tick, waits) % clockTurn : ℕ) -
          (gesture.pull.started : ℤ))
      · have hfires : gesture.Fires (.tick, waits) ↔ gesture.pull.phase = .risingFull := by
          refine ⟨?_, fun hrise => .inl ⟨rfl, hrise, hover⟩⟩
          rintro (⟨-, hrise, -⟩ | ⟨hcall, -⟩)
          · exact hrise
          · cases hcall
        obtain ⟨hsound, htriggers, hnot⟩ := sound_settle h heased ⟨hidle, hdrag⟩
          (fun h => absurd h hphase) hlater htold
        simp only [hfires, if_pos hover]
        exact ⟨hsound, htriggers, fun hrise => absurd hrise hnot⟩
      · have hfires : ¬ gesture.Fires (.tick, waits) := by
          rintro (⟨-, -, hover'⟩ | ⟨hcall, -⟩)
          · exact hover hover'
          · cases hcall
        rw [if_neg hover, if_neg hfires]
        have hlate := h.later hlater
        exact ⟨{ hlate with
          level := heased
          soon := fun _ _ => ⟨tbPullFrame, rfl, by decide⟩ }, rfl, id⟩

theorem sound_step (h : Sound gesture) {call : TimedCall} (hclear : gesture.Clear call) :
    Sound (gesture.step call) ∧ gesture.Right call := by
  obtain ⟨kind, waits⟩ := call
  -- only a press begins a rise, and only a tick or a release fires
  suffices hparts : Sound (gesture.step (kind, waits)) ∧
      (gesture.step (kind, waits)).pull.triggers =
        gesture.pull.triggers + (if gesture.Fires (kind, waits) then 1 else 0) ∧
      (gesture.Again (kind, waits) → (gesture.step (kind, waits)).pull.phase = .risingFull) ∧
      ((gesture.step (kind, waits)).pull.phase = .risingFull →
        gesture.pull.phase = .risingFull ∨ gesture.Again (kind, waits)) by
    obtain ⟨hsound, htriggers, hbegins, honly⟩ := hparts
    exact ⟨hsound, htriggers, hbegins, honly, hsound.level, hsound.soon⟩
  cases kind with
  | press =>
    obtain ⟨hsound, htriggers, hboth⟩ := step_press waits h hclear
    exact ⟨hsound, by simpa [Fires] using htriggers, hboth⟩
  | drag level =>
    obtain ⟨hsound, htriggers, honly⟩ := step_drag waits h level
    exact ⟨hsound, by simpa [Fires] using htriggers, by simp [Again], fun hrise => .inl (honly hrise)⟩
  | release =>
    obtain ⟨hsound, htriggers, honly⟩ := step_release waits h
    exact ⟨hsound, htriggers, by simp [Again], fun hrise => .inl (honly hrise)⟩
  | tick =>
    obtain ⟨hsound, htriggers, honly⟩ := step_tick waits h hclear
    exact ⟨hsound, htriggers, by simp [Again], fun hrise => .inl (honly hrise)⟩
  | reset =>
    refine ⟨⟨Nat.zero_le _, h.from, h.to, h.duration, fun hidle => absurd rfl hidle, ?_, ?_, ?_, ?_⟩,
      ?_, by simp [Again], nofun⟩
    · simp [Waits, step, TbPull.step, TbPull.reset]
    · simp [step, arms]
    · exact fun _ _ => rfl
    · exact fun _ => rfl
    · simp [step, TbPull.step, TbPull.reset, Fires]

theorem sound_start (time : ℕ) : Sound { time } :=
  ⟨Nat.zero_le _, Nat.zero_le _, Nat.zero_le _, Nat.zero_le _, fun hidle => absurd rfl hidle,
    by simp [Waits], by simp, fun _ _ => rfl, fun _ => rfl⟩

/-- **Every call of a run does what is asked**, from any time on, as long as the clock does not mislead
the gesture. -/
theorem right_of_run (time : ℕ) (calls : List TimedCall)
    (hclear : check step Clear { time } calls = true) :
    ∀ before call, before ++ [call] <+: calls → (before.foldl step { time }).Right call := by
  have hstart := sound_start time
  generalize ({ time } : Gesture) = gesture at hclear hstart
  intro before call hcall
  induction calls generalizing gesture before with
  | nil => simp at hcall
  | cons next calls ih =>
    rw [check, Bool.and_eq_true, decide_eq_true_eq] at hclear
    obtain ⟨hsound, hright⟩ := sound_step hstart hclear.1
    cases before with
    | nil =>
      rw [List.nil_append, List.cons_prefix_cons] at hcall
      rw [List.foldl_nil, hcall.1]
      exact hright
    | cons first before =>
      rw [List.cons_append, List.cons_prefix_cons] at hcall
      rw [List.foldl_cons, hcall.1]
      exact ih _ hclear.2 hsound before hcall.2

def twice : List TimedCall :=
  [(.press, 0, 0), (.tick, 40, 0), (.press, 60, 0), (.tick, 200, 1)]

/-- The last tick of two presses fires. -/
theorem right_twice : (((twice.take 3).foldl step { time := 1000 }).Right (.tick, 200, 1)) :=
  right_of_run 1000 twice (by decide +kernel) (twice.take 3) (.tick, 200, 1) (List.prefix_refl _)

/-- Two presses 100 milliseconds apart, the first one 200 before the clock wraps around: the second one
begins no rise. -/
theorem unheeded_press :
    ¬ ([(PullCall.press, 0, 0)].foldl step { time := clockTurn - 200 }).Right (.press, 100, 0) := by
  intro h
  have hrise := h.begins (by decide)
  exact absurd hrise (by decide)

end Gesture

end Watch
