import TeleBezel.Lib.Transition
import TeleBezel.Watch.HistoryView

/-!
# What the operations of the history view do

Every operation leaves the view alone, or submits a request for it, or arms its timer anew; an answer
adds to a page, completes it, or ends the request with an error. These inversions carry the invariants
of the view.
-/

namespace Watch.HistoryView

open Transition

variable {config : TbHistoryConfig} {env : Env} {history : TbHistory}

theorem outcome_of_lost {response : TbResponse}
    (h : tbErrorFromResponse response = tbResultCursorLost) :
    response.outcome = .response ∧ response.result = tbResultCursorLost := by
  unfold tbErrorFromResponse at h
  cases houtcome : response.outcome with
  | response =>
    rw [houtcome] at h
    exact ⟨rfl, h⟩
  | timeout | unreachable | cancelled | protocol =>
    rw [houtcome] at h
    cases h

namespace TbHistory

/-! ### What a submission leaves -/

section Submit

variable (op : TbHistoryOp) (page : PageOp) (silent : Bool)

@[simp] theorem loaded_submit : (history.submit env op page silent).loaded = history.loaded := by
  unfold submit refused clearStaging
  dsimp only
  split_ifs <;> rfl

@[simp] theorem pending_submit :
    (history.submit env op page silent).pending = env.submitted.sequence := by
  unfold submit refused
  dsimp only
  split_ifs <;> rfl

theorem op_submit : (history.submit env op page silent).op =
    if env.submitted.sequence = 0 then .none else op := by
  unfold submit refused
  dsimp only
  split_ifs <;> rfl

theorem top_submit_of_ne (h : op ≠ .older) :
    (history.submit env op page silent).top = history.top := by
  unfold submit refused clearStaging
  dsimp only
  rw [if_neg h]
  split_ifs <;> rfl

theorem top_submit_older (hloaded : history.loaded = true) (h : env.submitted.sequence = 0) :
    (history.submit env .older page silent).top = .failed := by
  unfold submit refused clearStaging
  simp [h, hloaded]

@[simp] theorem dues_submit : (history.submit env op page silent).dues = history.dues := by
  unfold submit refused clearStaging
  dsimp only
  split_ifs <;> rfl

end Submit

/-! ### What the end of a request leaves -/

theorem top_topOf (flags : ℕ) (older : Bool) : (history.topOf flags older).top ≠ .loading := by
  unfold topOf
  dsimp only
  split_ifs <;> exact nofun

theorem top_setTopFrom (flags : ℕ) (older : Bool) :
    (history.setTopFrom config env flags older).top ≠ .loading := by
  unfold setTopFrom
  dsimp only
  split_ifs
  · exact nofun
  · exact top_topOf flags older
  · exact nofun
  · exact nofun
  · exact top_topOf flags older

@[simp] theorem loaded_setTopFrom (flags : ℕ) (older : Bool) :
    (history.setTopFrom config env flags older).loaded = history.loaded := by
  unfold setTopFrom topOf
  dsimp only
  split_ifs <;> rfl

@[simp] theorem op_setTopFrom (flags : ℕ) (older : Bool) :
    (history.setTopFrom config env flags older).op = history.op := by
  unfold setTopFrom topOf
  dsimp only
  split_ifs <;> rfl

@[simp] theorem pending_setTopFrom (flags : ℕ) (older : Bool) :
    (history.setTopFrom config env flags older).pending = history.pending := by
  unfold setTopFrom topOf
  dsimp only
  split_ifs <;> rfl

theorem top_mergeNewest (flags : ℕ) (first : Bool) (h : first = true ∨ history.top ≠ .loading) :
    (history.mergeNewest config env flags first).top ≠ .loading := by
  unfold mergeNewest
  split_ifs with hfirst
  · exact top_setTopFrom flags false
  · exact h.resolve_left fun h => hfirst (.inl h)

@[simp] theorem op_mergeNewest (flags : ℕ) (first : Bool) :
    (history.mergeNewest config env flags first).op = history.op := by
  unfold mergeNewest
  split_ifs <;> simp

@[simp] theorem pending_mergeNewest (flags : ℕ) (first : Bool) :
    (history.mergeNewest config env flags first).pending = history.pending := by
  unfold mergeNewest
  split_ifs <;> simp

theorem finishNewest_fields (flags : ℕ) (first : Bool) :
    (history.finishNewest config env flags first).loaded = true ∧
      (history.finishNewest config env flags first).op = history.op ∧
      (history.finishNewest config env flags first).pending = history.pending ∧
      (history.finishNewest config env flags first).top =
        (history.mergeNewest config env flags first).top := by
  unfold finishNewest schedulePeriodic
  dsimp only
  split_ifs <;> simp

theorem finish_fields (flags : ℕ) (holder : history.op = .older → history.loaded = true) :
    (history.finish config env flags).loaded = true ∧ (history.finish config env flags).op = .none ∧
      (history.finish config env flags).pending = 0 := by
  unfold finish settle arm
  cases hop : history.op with
  | older =>
    have hloaded := holder hop
    dsimp only
    split_ifs <;> simp [hloaded]
  | none | first | refresh =>
    dsimp only
    split_ifs
    all_goals
      refine ⟨(finishNewest_fields _ _).1, ?_, ?_⟩
      · exact (finishNewest_fields _ _).2.1
      · exact (finishNewest_fields _ _).2.2.1

theorem top_finish (flags : ℕ)
    (h : history.op = .older ∨ history.op = .first ∨ history.top ≠ .loading) :
    (history.finish config env flags).top ≠ .loading := by
  unfold finish settle arm
  cases hop : history.op with
  | older =>
    dsimp only
    split_ifs <;> exact top_setTopFrom flags true
  | none | first | refresh =>
    dsimp only
    split_ifs
    all_goals
      refine fun hloading => top_mergeNewest flags _ ?_
        ((finishNewest_fields flags _).2.2.2.symm.trans hloading)
      simp_all

theorem failed_fields (op : TbHistoryOp) (error : ℤ) :
    (history.failed config env op error).loaded = history.loaded ∧
      (history.failed config env op error).op = history.op ∧
      (history.failed config env op error).pending = history.pending ∧
      (history.loaded = true → (history.failed config env op error).top ≠ .loading) ∧
      (history.loaded = false → history.dues = [0, 0, 0] →
        (history.failed config env op error).dues = [0, 0, 0]) := by
  unfold failed schedulePeriodic arm dues
  dsimp only
  refine ⟨?_, ?_, ?_, ?_, ?_⟩
  · split_ifs <;> rfl
  · split_ifs <;> rfl
  · split_ifs <;> rfl
  · intro hloaded
    split_ifs <;> simp_all
  · intro hloaded hdues
    split_ifs <;> simp_all

/-! ### The invariant -/

/-- A request is pending exactly while an operation is under way. Before the first page, nothing else
is asked for and nothing is due. -/
structure Sound (history : TbHistory) : Prop where
  idle : history.op = .none ↔ history.pending = 0
  unloaded : history.loaded = false →
    (history.op = .none ∨ history.op = .first) ∧ history.dues = [0, 0, 0]

theorem Sound.older (h : Sound history) (hop : history.op = .older) : history.loaded = true := by
  by_contra hloaded
  rcases (h.unloaded (Bool.eq_false_of_not_eq_true hloaded)).1 with hother | hother
  · cases hop.symm.trans hother
  · cases hop.symm.trans hother

theorem sound_submit {op : TbHistoryOp} (page : PageOp) (silent : Bool) (hop : op ≠ .none)
    (h : history.loaded = false → op = .first ∧ history.dues = [0, 0, 0]) :
    Sound (history.submit env op page silent) := by
  refine ⟨?_, fun hloaded => ?_⟩
  · rw [op_submit, pending_submit]
    split_ifs with hsequence
    · simp [hsequence]
    · simp [hsequence, hop]
  · rw [loaded_submit] at hloaded
    obtain ⟨rfl, hdues⟩ := h hloaded
    rw [dues_submit]
    refine ⟨?_, hdues⟩
    rw [op_submit]
    split_ifs
    · exact .inl rfl
    · exact .inr rfl

variable {history' : TbHistory}

theorem Sound.of_eq (h : Sound history) (hop : history'.op = history.op)
    (hpending : history'.pending = history.pending) (hloaded : history'.loaded = history.loaded)
    (hdues : history.loaded = false → history.dues = [0, 0, 0] → history'.dues = [0, 0, 0]) :
    Sound history' := by
  refine ⟨?_, fun hfalse => ?_⟩
  · rw [hop, hpending]
    exact h.idle
  · rw [hloaded] at hfalse
    rw [hop]
    exact ⟨(h.unloaded hfalse).1, hdues hfalse (h.unloaded hfalse).2⟩

theorem due_zero (current : ℕ) : due 0 current = false := rfl

theorem loaded_of_due (h : Sound history) {current : ℕ}
    (hdue : due history.followupDue current = true ∨ due history.periodicDue current = true ∨
      due history.recheckDue current = true) : history.loaded = true := by
  by_contra hloaded
  have hzero := (h.unloaded (Bool.eq_false_of_not_eq_true hloaded)).2
  simp only [dues, List.cons.injEq, and_true] at hzero
  obtain ⟨hfollowup, hrecheck, hperiodic⟩ := hzero
  rw [hfollowup, hrecheck, hperiodic] at hdue
  simp [due_zero] at hdue

theorem sound_fail (h : Sound history) (error : ℤ) (retryAfter : ℕ) :
    Sound (history.fail config env error retryAfter) := by
  unfold fail
  dsimp only
  split_ifs with hlost
  · refine sound_submit _ _ nofun fun hloaded => ⟨rfl, ?_⟩
    exact (h.unloaded hloaded).2
  · set history' : TbHistory := { history.clearStaging with pending := 0, op := .none, retryAfter }
    obtain ⟨hloaded, hop, hpending, -, hdues⟩ := @failed_fields config env history' history.op error
    have hcleared : Sound history' :=
      ⟨by simp [history'], fun hfalse => ⟨.inl rfl, (h.unloaded hfalse).2⟩⟩
    exact hcleared.of_eq hop hpending hloaded hdues

/-- **Inversion of `completed`.** A call is ignored, or it ends the request with an error, or it adds
to a page, or it completes one. -/
theorem completed_cases (history : TbHistory) (sequence : ℕ) (response : TbResponse) (flags : ℕ) :
    ((sequence ≠ history.pending ∨ response.outcome = .cancelled) ∧
        history.completed config env sequence response flags = history) ∨
      (sequence = history.pending ∧ response.outcome ≠ .cancelled ∧
        ((¬ (response.outcome = .response ∧ response.result = tbResultOk) ∧
            history.completed config env sequence response flags =
              (history.abandon sequence response).fail config env (tbErrorFromResponse response)
                response.retryAfter) ∨
          (response.outcome = .response ∧ response.result = tbResultOk ∧
            (((history.parse config env response.payload).2 = false ∧
                history.completed config env sequence response flags =
                  ((history.parse config env response.payload).1.abandon sequence response).fail
                    config env tbResultProtocolError 0) ∨
              ((history.parse config env response.payload).2 = true ∧ response.final = false ∧
                history.completed config env sequence response flags =
                  (history.parse config env response.payload).1) ∨
              ((history.parse config env response.payload).2 = true ∧ response.final = true ∧
                (history.parse config env response.payload).1.stagingInvalid = true ∧
                history.completed config env sequence response flags =
                  (history.parse config env response.payload).1.clearStaging.fail config env
                    tbErrorOutOfMemory 0) ∨
              ((history.parse config env response.payload).2 = true ∧ response.final = true ∧
                (history.parse config env response.payload).1.stagingInvalid = false ∧
                history.completed config env sequence response flags =
                  (history.parse config env response.payload).1.finish config env flags))))) := by
  unfold completed
  by_cases hignored : sequence ≠ history.pending ∨ response.outcome = .cancelled
  · exact .inl ⟨hignored, if_pos hignored⟩
  · rw [if_neg hignored]
    push Not at hignored
    refine .inr ⟨hignored.1, hignored.2, ?_⟩
    by_cases hanswer : response.outcome ≠ .response ∨ response.result ≠ tbResultOk
    · refine .inl ⟨fun h => ?_, if_pos hanswer⟩
      rcases hanswer with hother | hother
      · exact hother h.1
      · exact hother h.2
    · rw [if_neg hanswer]
      push Not at hanswer
      refine .inr ⟨hanswer.1, hanswer.2, ?_⟩
      dsimp only
      cases hparsed : (history.parse config env response.payload).2 with
      | false => exact .inl ⟨rfl, rfl⟩
      | true =>
        cases hfinal : response.final with
        | false => exact .inr (.inl ⟨rfl, rfl, rfl⟩)
        | true =>
          cases hinvalid : (history.parse config env response.payload).1.stagingInvalid with
          | true => exact .inr (.inr (.inl ⟨rfl, rfl, rfl, rfl⟩))
          | false => exact .inr (.inr (.inr ⟨rfl, rfl, rfl, rfl⟩))

theorem sound_parse (h : Sound history) (payload : List UInt8) :
    Sound (history.parse config env payload).1 :=
  h.of_eq rfl rfl rfl fun _ hdues => hdues

theorem sound_abandon (h : Sound history) (sequence : ℕ) (response : TbResponse) :
    Sound (history.abandon sequence response) :=
  h.of_eq rfl rfl rfl fun _ hdues => hdues

theorem sound_completed (h : Sound history) (sequence : ℕ) (response : TbResponse) (flags : ℕ) :
    Sound (history.completed config env sequence response flags) := by
  have hparsed := @sound_parse config env history h response.payload
  rcases @completed_cases config env history sequence response flags with
    ⟨-, heq⟩ | ⟨-, -, ⟨-, heq⟩ | ⟨-, -, ⟨-, heq⟩ | ⟨-, -, heq⟩ | ⟨-, -, -, heq⟩ | ⟨-, -, -, heq⟩⟩⟩
  all_goals rw [heq]
  · exact h
  · exact sound_fail (sound_abandon h _ _) _ _
  · exact sound_fail (sound_abandon hparsed _ _) _ _
  · exact hparsed
  · exact sound_fail (hparsed.of_eq rfl rfl rfl fun _ hdues => hdues) _ _
  · obtain ⟨hloaded, hop, hpending⟩ := @finish_fields config env _ flags hparsed.older
    exact ⟨iff_of_true hop hpending, fun hfalse => nomatch hloaded.symm.trans hfalse⟩

theorem atDelay_ne_zero (now delay : ℕ) : atDelay now delay ≠ 0 := by
  unfold atDelay
  dsimp only
  split_ifs with hzero
  · exact one_ne_zero
  · exact hzero

/-! ### What the operations do -/

structure Alike (history history' : TbHistory) : Prop where
  messages : history'.toTbMessages = history.toTbMessages
  loaded : history'.loaded = history.loaded
  op : history'.op = history.op
  pending : history'.pending = history.pending
  top : history'.top = history.top
  active : history'.active = history.active
  start : history'.start = history.start
  calls : history'.calls = history.calls

def Asks (env : Env) (history : TbHistory) (timer : Option (ℕ × ℕ)) (dues : List ℕ)
    (result : TbHistory) : Prop :=
  ∃ (history' : TbHistory) (op : TbHistoryOp) (page : PageOp) (silent : Bool),
    op ≠ .none ∧ (history.loaded = false → op = .first) ∧ Alike history history' ∧
      history'.timer = timer ∧ history'.dues = dues ∧ result = history'.submit env op page silent

def Arms (env : Env) (history : TbHistory) (dues : List ℕ) (result : TbHistory) : Prop :=
  ∃ history', Alike history history' ∧ history'.dues = dues ∧ result = history'.arm env

variable {times : List ℕ} {timer : Option (ℕ × ℕ)}

theorem asks_submit {op : TbHistoryOp} {page : PageOp} {silent : Bool} (hop : op ≠ .none)
    (hfirst : history.loaded = false → op = .first) (h : Alike history history')
    (htimer : history'.timer = timer) (hdues : history'.dues = times) :
    Asks env history timer times (history'.submit env op page silent) :=
  ⟨history', op, page, silent, hop, hfirst, h, htimer, hdues, rfl⟩

theorem arms_arm (h : Alike history history') (hdues : history'.dues = times) :
    Arms env history times (history'.arm env) :=
  ⟨history', h, hdues, rfl⟩

/-- **Inversion of `open`.** The first page is asked for, of the same messages or of none. -/
theorem open_cases (env : Env) (history : TbHistory) (account chat : CString) :
    (history.isOf account chat = true ∧ history.truncated = false ∧
        ∃ history' : TbHistory, history'.toTbMessages = history.toTbMessages.clearStaging ∧
          history'.loaded = true ∧ history'.top = history.top ∧ history'.dues = [0, 0, 0] ∧
          history'.timer = none ∧
          history.open env account chat = history'.submit env .first .first true) ∨
      (¬ (history.isOf account chat = true ∧ history.truncated = false) ∧
        ∃ history' : TbHistory, history'.toTbMessages =
            { history.toTbMessages.clearStaging.clearItems with truncated := false } ∧
          history'.loaded = false ∧ history'.dues = [0, 0, 0] ∧
          history.open env account chat = history'.submit env .first .first false) := by
  unfold «open»
  by_cases hsame : history.isOf account chat = true ∧ history.truncated = false
  · obtain ⟨hof, htruncated⟩ := hsame
    have hloaded : history.loaded = true := by
      unfold isOf at hof
      simp_all
    refine .inl ⟨hof, htruncated, ?_⟩
    rw [if_pos (by simp [hof, htruncated])]
    refine ⟨_, ?_, ?_, ?_, ?_, ?_, rfl⟩
    · rfl
    · exact hloaded
    · rfl
    · rfl
    · rfl
  · refine .inr ⟨hsame, ?_⟩
    rw [if_neg (by simpa using hsame)]
    refine ⟨_, ?_, ?_, ?_, rfl⟩ <;> rfl

theorem loadOlder_cases (env : Env) (history : TbHistory) :
    ((history.loaded = false ∨ history.op ≠ .none ∨ history.top = .loading) ∧
        history.loadOlder env = history) ∨
      (history.loaded = true ∧ history.op = .none ∧ history.top ≠ .loading ∧
        Asks env history history.timer
          [history.followupDue, if history.top = .more then history.recheckDue else 0,
            history.periodicDue]
          (history.loadOlder env)) := by
  by_cases hidle : ¬ history.loaded ∨ history.op ≠ .none
  · refine .inl ⟨?_, if_pos hidle⟩
    rcases hidle with hloaded | hop
    · exact .inl (Bool.eq_false_of_not_eq_true hloaded)
    · exact .inr (.inl hop)
  unfold loadOlder
  rw [if_neg hidle]
  push Not at hidle
  obtain ⟨hloaded, hop⟩ := hidle
  have hfirst : ∀ op : TbHistoryOp, history.loaded = false → op = .first :=
    fun op hfalse => nomatch hloaded.symm.trans hfalse
  cases htop : history.top with
  | loading => exact .inl ⟨.inr (.inr rfl), rfl⟩
  | more =>
    refine .inr ⟨hloaded, hop, nofun, ?_⟩
    exact asks_submit nofun (hfirst _) ⟨rfl, rfl, rfl, rfl, rfl, rfl, rfl, rfl⟩ rfl rfl
  | failed | waiting | start | unknown =>
    refine .inr ⟨hloaded, hop, nofun, ?_⟩
    cases history.topOp with
    | first | refresh =>
      exact asks_submit nofun (hfirst _)
        ⟨rfl, rfl, rfl, rfl, htop.symm, rfl, rfl, rfl⟩ rfl rfl
    | next | retry | recheck =>
      refine asks_submit nofun (hfirst _) ?_ ?_ ?_
      · split_ifs <;> exact ⟨rfl, rfl, rfl, rfl, htop.symm, rfl, rfl, rfl⟩
      · rw [apply_ite TbHistory.timer]
        exact ite_self _
      · rw [apply_ite TbHistory.dues]
        exact ite_self _

theorem refresh_cases (env : Env) (history : TbHistory) :
    ((history.op ≠ .none ∨ history.account = []) ∧ history.refresh env = history) ∨
      (history.op = .none ∧ history.account ≠ [] ∧
        Asks env history history.timer history.dues (history.refresh env)) := by
  by_cases hidle : history.op ≠ .none ∨ history.account = []
  · exact .inl ⟨hidle, if_pos hidle⟩
  unfold refresh
  rw [if_neg hidle]
  push Not at hidle
  refine .inr ⟨hidle.1, hidle.2, ?_⟩
  dsimp only
  split_ifs with hfirst
  · exact asks_submit nofun (fun _ => rfl) ⟨rfl, rfl, rfl, rfl, rfl, rfl, rfl, rfl⟩
      rfl rfl
  · refine asks_submit nofun (fun hfalse => absurd (.inl ?_) hfirst)
      ⟨rfl, rfl, rfl, rfl, rfl, rfl, rfl, rfl⟩ rfl rfl
    simpa using hfalse

theorem retry_cases (env : Env) (history : TbHistory) :
    ((history.op ≠ .none ∨ history.account = []) ∧ history.retry env = history) ∨
      (history.op = .none ∧ history.account ≠ [] ∧
        Asks env history history.timer
          [history.followupDue,
            if history.loaded = true ∧ history.top = .failed then 0 else history.recheckDue,
            history.periodicDue]
          (history.retry env)) := by
  by_cases hidle : history.op ≠ .none ∨ history.account = []
  · exact .inl ⟨hidle, if_pos hidle⟩
  unfold retry
  rw [if_neg hidle]
  push Not at hidle
  refine .inr ⟨hidle.1, hidle.2, ?_⟩
  cases hloaded : history.loaded with
  | false =>
    exact asks_submit nofun (fun _ => rfl)
      ⟨rfl, hloaded.symm, rfl, rfl, rfl, rfl, rfl, rfl⟩ rfl rfl
  | true =>
    by_cases htop : history.top = .failed
    · rcases loadOlder_cases env history with ⟨hbusy, -⟩ | ⟨-, -, -, hasks⟩
      · simp_all
      · simpa [htop] using hasks
    · rcases refresh_cases env history with ⟨hbusy, -⟩ | ⟨-, -, hasks⟩
      · simp_all
      · simpa [htop, dues] using hasks

theorem setActive_cases (config : TbHistoryConfig) (env : Env) (history : TbHistory) (active : Bool) :
    (history.account = [] ∧ history.setActive config env active = history) ∨
      (history.account ≠ [] ∧
        ((active = false ∧
            Arms env { history with active := false } [0, history.recheckDue, 0]
              (history.setActive config env active)) ∨
          (active = true ∧ history.loaded = true ∧ history.op = .none ∧ history.truncated = false ∧
            config.refreshInterval ≤ Word.uint32 ((env.now .checked : ℤ) - history.refreshedAt) ∧
            Asks env { history with active := true } history.timer history.dues
              (history.setActive config env active)) ∨
          (active = true ∧
            Arms env { history with active := true }
              ({ history with active := true }.schedulePeriodic config env).dues
              (history.setActive config env active)))) := by
  by_cases haccount : history.account = []
  · exact .inl ⟨haccount, if_pos haccount⟩
  unfold setActive
  rw [if_neg haccount]
  refine .inr ⟨haccount, ?_⟩
  cases active with
  | false => exact .inl ⟨rfl, arms_arm ⟨rfl, rfl, rfl, rfl, rfl, rfl, rfl, rfl⟩ rfl⟩
  | true =>
    refine .inr ?_
    dsimp only
    rw [if_neg (by simp)]
    split_ifs with hstale
    · obtain ⟨hloaded, hop, htruncated, hage⟩ := hstale
      refine .inl ⟨rfl, hloaded, hop, Bool.eq_false_of_not_eq_true htruncated, hage, ?_⟩
      rcases refresh_cases env { history with active := true } with ⟨hbusy, -⟩ | ⟨-, -, hasks⟩
      · exact absurd hbusy (by simp [hop, haccount])
      · exact hasks
    · exact .inr ⟨rfl, arms_arm ⟨rfl, rfl, rfl, rfl, rfl, rfl, rfl, rfl⟩ rfl⟩

def Due (env : Env) (history : TbHistory) : Prop :=
  due history.followupDue (env.now .checked) = true ∨
    due history.periodicDue (env.now .checked) = true ∨
    due history.recheckDue (env.now .checked) = true

instance (history : TbHistory) : Decidable (Due env history) :=
  inferInstanceAs (Decidable (_ ∨ _ ∨ _))

theorem timerRan_cases (env : Env) (h : Sound history) :
    (¬ Due env history ∧ Arms env history history.dues (history.timerRan env)) ∨
      (Due env history ∧ history.op ≠ .none ∧
        ∃ followupDue recheckDue periodicDue, (history.periodicDue ≠ 0 → periodicDue ≠ 0) ∧
          Arms env history [followupDue, recheckDue, periodicDue] (history.timerRan env)) ∨
      (history.op = .none ∧ due history.recheckDue (env.now .checked) = true ∧
        Asks env history none [history.followupDue, 0, history.periodicDue]
          (history.timerRan env)) ∨
      (Due env history ∧ history.op = .none ∧ history.active = false ∧
        Arms env history [0, history.recheckDue, 0] (history.timerRan env)) ∨
      (Due env history ∧ history.op = .none ∧ due history.recheckDue (env.now .checked) = false ∧
        history.active = true ∧ (history.timerRan env).op ≠ .older ∧
        Asks env history none [0, history.recheckDue, 0] (history.timerRan env)) := by
  by_cases hnone : ¬ due history.followupDue (env.now .checked) ∧
      ¬ due history.periodicDue (env.now .checked) ∧ ¬ due history.recheckDue (env.now .checked)
  · refine .inl ⟨?_, ?_⟩
    · unfold Due
      tauto
    · unfold timerRan
      rw [if_pos hnone]
      exact arms_arm ⟨rfl, rfl, rfl, rfl, rfl, rfl, rfl, rfl⟩ rfl
  have hdue : Due env history := by
    tauto
  have hfirst : ∀ op : TbHistoryOp, history.loaded = false → op = .first :=
    fun op hfalse => nomatch (loaded_of_due h hdue).symm.trans hfalse
  unfold timerRan
  rw [if_neg hnone]
  by_cases hop : history.op = .none
  · rw [if_neg (not_not_intro hop)]
    cases hrecheck : due history.recheckDue (env.now .checked) with
    | true =>
      refine .inr (.inr (.inl ⟨hop, rfl, ?_⟩))
      exact asks_submit nofun (hfirst _) ⟨rfl, rfl, rfl, rfl, rfl, rfl, rfl, rfl⟩ rfl rfl
    | false =>
      refine .inr (.inr (.inr ?_))
      rw [if_neg (by simp)]
      by_cases hperiodic : due history.periodicDue (env.now .checked) = true ∧
          ¬ due history.followupDue (env.now .checked) = true
      all_goals
        simp only [hperiodic]
        cases hactive : history.active with
        | false =>
          refine .inl ⟨hdue, hop, rfl, ?_⟩
          exact arms_arm ⟨rfl, rfl, rfl, rfl, rfl, hactive.symm, rfl, rfl⟩ rfl
        | true =>
          refine .inr ⟨hdue, hop, trivial, rfl, ?_, ?_⟩
          · rw [if_neg (by simp), op_submit]
            split_ifs <;> exact nofun
          · exact asks_submit nofun (hfirst _)
              ⟨rfl, rfl, rfl, rfl, rfl, hactive.symm, rfl, rfl⟩ rfl rfl
  · refine .inr (.inl ⟨hdue, hop, ?_⟩)
    rw [if_pos hop]
    refine ⟨_, _, _, ?_, arms_arm ⟨rfl, rfl, rfl, rfl, rfl, rfl, rfl, rfl⟩ rfl⟩
    intro hset
    dsimp only
    split_ifs
    · exact atDelay_ne_zero _ _
    · exact hset

variable {result : TbHistory}

section

variable (h : Sound history)
include h

theorem sound_asks (hasks : Asks env history timer times result)
    (htimes : history.loaded = false → times = history.dues) : Sound result := by
  obtain ⟨history', op, page, silent, hop, hfirst, halike, -, rfl, rfl⟩ := hasks
  refine sound_submit page silent hop fun hloaded => ?_
  rw [halike.loaded] at hloaded
  exact ⟨hfirst hloaded, (htimes hloaded).trans (h.unloaded hloaded).2⟩

theorem sound_arms (harms : Arms env history times result)
    (htimes : history.loaded = false → times = [0, 0, 0]) : Sound result := by
  obtain ⟨history', halike, rfl, rfl⟩ := harms
  exact h.of_eq halike.op halike.pending halike.loaded fun hloaded _ => htimes hloaded

theorem sound_loadOlder : Sound (history.loadOlder env) := by
  rcases loadOlder_cases env history with ⟨-, heq⟩ | ⟨hloaded, -, -, hasks⟩
  · rw [heq]
    exact h
  · exact sound_asks h hasks fun hfalse => nomatch hloaded.symm.trans hfalse

theorem sound_refresh : Sound (history.refresh env) := by
  rcases refresh_cases env history with ⟨-, heq⟩ | ⟨-, -, hasks⟩
  · rw [heq]
    exact h
  · exact sound_asks h hasks fun _ => rfl

theorem sound_retry : Sound (history.retry env) := by
  rcases retry_cases env history with ⟨-, heq⟩ | ⟨-, -, hasks⟩
  · rw [heq]
    exact h
  · refine sound_asks h hasks fun hfalse => ?_
    simp [hfalse, dues]

theorem sound_setActive (active : Bool) :
    Sound (history.setActive config env active) := by
  have hactive : ∀ active, Sound { history with active } :=
    fun active => h.of_eq rfl rfl rfl fun _ hdues => hdues
  rcases setActive_cases config env history active with
    ⟨-, heq⟩ | ⟨-, ⟨-, harms⟩ | ⟨-, hloaded, -, -, -, hasks⟩ | ⟨-, harms⟩⟩
  · rw [heq]
    exact h
  · refine sound_arms (hactive false) harms fun hloaded => ?_
    have hzero := (h.unloaded hloaded).2
    simp_all [dues]
  · exact sound_asks (hactive true) hasks fun _ => rfl
  · refine sound_arms (hactive true) harms fun hloaded => ?_
    have hzero := (h.unloaded hloaded).2
    simp_all [dues, schedulePeriodic]

theorem sound_timerRan : Sound (history.timerRan env) := by
  have hloaded : Due env history → ∀ {p : Prop}, history.loaded = false → p :=
    fun hdue _ hfalse => nomatch (loaded_of_due h hdue).symm.trans hfalse
  rcases timerRan_cases env h with ⟨-, harms⟩ | ⟨hdue, -, _, _, _, -, harms⟩ | ⟨-, hdue, hasks⟩ |
    ⟨hdue, -, -, harms⟩ | ⟨hdue, -, -, -, -, hasks⟩
  · exact sound_arms h harms fun hfalse => (h.unloaded hfalse).2
  · exact sound_arms h harms (hloaded hdue)
  · exact sound_asks h hasks (hloaded (.inr (.inr hdue)))
  · exact sound_arms h harms (hloaded hdue)
  · exact sound_asks h hasks (hloaded hdue)

end

theorem sound_close (history : TbHistory) : Sound history.close :=
  ⟨iff_of_true rfl rfl, fun _ => ⟨.inl rfl, rfl⟩⟩

theorem sound_open (history : TbHistory) (account chat : CString) :
    Sound (history.open env account chat) := by
  rcases open_cases env history account chat with
    ⟨-, -, history', -, -, -, hdues, -, heq⟩ | ⟨-, history', -, -, hdues, heq⟩
  all_goals
    rw [heq]
    exact sound_submit _ _ nofun fun _ => ⟨rfl, hdues⟩

theorem sound_step (h : Sound history) (event : Event × Env) : Sound (step config history event) := by
  obtain ⟨event, env⟩ := event
  cases event with
  | «open» account chat => exact sound_open history account chat
  | close => exact sound_close history
  | loadOlder => exact sound_loadOlder h
  | refresh => exact sound_refresh h
  | retry => exact sound_retry h
  | setActive active => exact sound_setActive h active
  | timer => exact sound_timerRan h
  | response sequence response flags => exact sound_completed h sequence response flags

theorem sound_init : Sound ({} : TbHistory) :=
  ⟨iff_of_true rfl rfl, fun _ => ⟨.inl rfl, rfl⟩⟩

end TbHistory

end Watch.HistoryView
