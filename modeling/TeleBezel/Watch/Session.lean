import Mathlib.Data.List.Basic
import TeleBezel.Watch.Requests

/-!
# The session of the watch

`session.c` greets the phone, then asks for the preferences and the accounts. What it cancels on the
request layer is answered with an outcome that it takes no notice of, so that only what it submits is
modelled.
-/

open List

namespace Watch.Session

def tbMaxAccounts : ℕ := 8

def tbAccountNameSize : ℕ := 49

def tbHostSize : ℕ := 65

def tbAccountStateReady : ℕ := 0

/-- `TB_LIST_ARCHIVE`, `TB_UNREAD_MODE_MESSAGES` and `TB_PHOTO_MODE_MANUAL`; the other list and the other
modes are 0. -/
def tbListArchive : ℕ := 1

@[inherit_doc tbListArchive] def tbUnreadModeMessages : ℕ := 1

@[inherit_doc tbListArchive] def tbPhotoModeManual : ℕ := 1

structure TbAccount where
  id : CString
  name : CString
  state : ℕ
  flags : ℕ

inductive TbSessionPhase
  | idle
  | hello
  | bootstrap
deriving DecidableEq

/-- What `TbSession` holds of an answer, with the records that it has handed on to `extra`. -/
structure Answer where
  accounts : List TbAccount := []
  defaultAccount : CString := []
  chatList : ℕ := 0
  showArchive : Bool := false
  unreadMode : ℕ := 0
  photoMode : ℕ := 0
  host : CString := []
  extras : List (List UInt8) := []

structure TbSession extends Answer where
  phase : TbSessionPhase := .idle
  pending : ℕ := 0
  error : ℤ := tbErrorNone
  retryAfter : ℕ := 0
  loaded : Bool := false
  generation : ℕ := 0
  /-- `failure` tells that the chunks were out of order. -/
  failure : Bool := false

/-- One byte of the loop of `tb_copy_uuid`. -/
def uuidByte (index : ℕ) (c : UInt8) : Bool :=
  if index = 8 ∨ index = 13 ∨ index = 18 ∨ index = 23 then c = 0x2D
  else 0x30 ≤ c && c ≤ 0x39 || 0x61 ≤ c && c ≤ 0x66 || 0x41 ≤ c && c ≤ 0x46

def isUuid (value : List UInt8) : Bool :=
  value.length = 36 && value.zipIdx.all fun c => uuidByte c.2 c.1

/-- `tb_copy_uuid`, into an array that has room. -/
def tbCopyUuid (value : List UInt8) : Option CString := if isUuid value then some value else none

namespace Answer

variable (answer : Answer)

def prefs : List FieldValue → Option Answer
  | [.span defaultAccount, .number chatList, .span host, .number showArchive, .number unreadMode,
      .number photoMode] =>
    some { answer with
      defaultAccount := (tbCopyUuid defaultAccount).getD []
      showArchive := showArchive ≠ 0
      chatList := if showArchive ≠ 0 ∧ chatList = tbListArchive then tbListArchive else 0
      unreadMode := if unreadMode = tbUnreadModeMessages then tbUnreadModeMessages else 0
      photoMode := if photoMode = tbPhotoModeManual then tbPhotoModeManual else 0
      host := tbCopySpan tbHostSize host }
  | _ => none

def account : List FieldValue → Option Answer
  | [.span id, .span name, .number state, .number flags] =>
    if tbMaxAccounts ≤ answer.accounts.length then some answer
    else do
      let id ← tbCopyUuid id
      some { answer with
        accounts := answer.accounts ++ [⟨id, tbCopySpan tbAccountNameSize name, state, flags⟩] }
  | _ => none

/-- One record of the loop of `parse`, by `TB_RECORD_ACCOUNT`, `TB_RECORD_PREFS` and
`TB_RECORD_PENDING_SEND`. -/
def record (type : ℕ) (body : TbCursor) : Option Answer :=
  match type with
  | 1 => (tbCodecDecode body (tbLayout 1)).bind answer.account
  | 2 => (tbCodecDecode body (tbLayout 2)).bind answer.prefs
  | 12 => some { answer with extras := answer.extras ++ [body] }
  | _ => none

/-- The loop of `parse`: every record has bytes, so that the length of the payload is fuel enough. What
was taken before a record that is refused stays. -/
def parseLoop : ℕ → Answer → TbCursor → Answer × Bool
  | 0, answer, cursor => (answer, cursor = [])
  | fuel + 1, answer, cursor =>
    if cursor = [] then (answer, true)
    else
      match tbCodecNext cursor with
      | none => (answer, false)
      | some (type, body, rest) =>
        match answer.record type body with
        | none => (answer, false)
        | some answer => parseLoop fuel answer rest

/-- `parse`: the first message of an answer resets what the one before it told. -/
def parse (response : TbResponse) : Answer × Bool :=
  parseLoop response.payload.length
    (if response.index = 0 then { extras := answer.extras, showArchive := true } else answer)
    response.payload

end Answer

namespace TbSession

variable (session : TbSession) (submitted : Submitted)

def settle (error : ℤ) : TbSession := { session with phase := .idle, pending := 0, error }

def submit : TbSession :=
  if submitted.sequence = 0 ∧ session.phase ≠ .idle then
    session.settle (tbErrorSubmitFailed submitted)
  else { session with pending := submitted.sequence }

def bootstrap : TbSession :=
  { session with phase := .bootstrap, error := tbErrorNone }.submit submitted

def completed (sequence : ℕ) (response : TbResponse) : TbSession :=
  if sequence ≠ session.pending ∨ response.outcome = .cancelled then session
  else if session.phase = .hello then
    -- what the phone answers is of no matter, only that it does
    if response.outcome = .response then session.bootstrap submitted
    else session.settle (tbErrorFromResponse response)
  else
    let session := { session with failure := response.outcome = TbRequestOutcome.protocol }
    if response.outcome ≠ .response ∨ response.result ≠ tbResultOk then
      { session with retryAfter := response.retryAfter }.settle (tbErrorFromResponse response)
    else
      match session.toAnswer.parse response with
      | (answer, false) =>
        { session with toAnswer := { answer with accounts := [] } }.settle tbResultProtocolError
      | (answer, true) =>
        let session := { session with toAnswer := answer }
        if response.final then
          { session with
            loaded := true
            generation := (session.generation + 1) % 2 ^ 32 }.settle tbErrorNone
        else session

/-- What `tb_session_start` and `tb_session_refresh` forget. -/
def emptied : TbSession := { session with loaded := false, accounts := [] }

def start (transportReady : Bool) : TbSession :=
  if transportReady then
    { session.emptied with phase := .hello, error := tbErrorNone }.submit submitted
  else session.emptied.settle tbErrorNoResponse

/-- `tb_session_ready`: the phone tells that it is there, in answer to a request or of its own. -/
def ready (sequence : ℕ) : TbSession :=
  if session.phase = .hello ∧ sequence = session.pending then
    session.completed submitted sequence { outcome := .response, result := tbResultOk }
  else if session.phase = .idle ∧ session.loaded = false then session.bootstrap submitted
  else session

def refresh : TbSession :=
  if session.phase = .hello then session else session.emptied.bootstrap submitted

/-- `tb_session_find`. -/
def find (account : CString) : Option ℕ := session.accounts.findIdx? (·.id = account)

def accountReady (index : ℕ) : Bool :=
  (session.accounts[index]?).any (·.state = tbAccountStateReady)

/-- `tb_session_initial_account`. -/
def initialAccount : Option ℕ :=
  let chosen := if session.defaultAccount = [] then none else session.find session.defaultAccount
  (chosen.filter session.accountReady).or
    (if session.accounts.length = 1 ∧ session.accountReady 0 then some 0 else none)

end TbSession

inductive SessionEvent
  | start (transportReady : Bool)
  | retry
  | ready (sequence : ℕ)
  | refresh
  | stop
  | completed (sequence : ℕ) (response : TbResponse)

/-- A call of the session, with what the request layer answers a submission. It calls back for none with
the sequence 0. -/
def step (session : TbSession) : Submitted × SessionEvent → TbSession
  | (submitted, .start transportReady) => session.start submitted transportReady
  | (submitted, .retry) => if session.phase = .idle then session.start submitted true else session
  | (submitted, .ready sequence) => session.ready submitted sequence
  | (submitted, .refresh) => session.refresh submitted
  | (_, .stop) => { session with phase := .idle, pending := 0 }
  | (submitted, .completed sequence response) =>
    if sequence = 0 then session else session.completed submitted sequence response

/-! ### Every run -/

structure Contents (answer : Answer) : Prop where
  accounts_le : answer.accounts.length ≤ tbMaxAccounts
  ids : ∀ account ∈ answer.accounts, isUuid account.id = true
  defaultAccount : answer.defaultAccount = [] ∨ isUuid answer.defaultAccount = true
  archive : answer.chatList ≠ 0 → answer.showArchive = true

/-- A request is pending just while the session is busy, and what is loaded was answered to its end. -/
structure Sound (session : TbSession) : Prop where
  contents : Contents session.toAnswer
  busy : session.phase = .idle ↔ session.pending = 0
  loaded : session.loaded = true → session.phase = .idle ∧ session.error = tbErrorNone

variable {answer answer' : Answer} {session : TbSession} {submitted : Submitted}

theorem isUuid_of_copy {value : List UInt8} {id : CString} (h : tbCopyUuid value = some id) :
    isUuid id = true := by
  unfold tbCopyUuid at h
  split_ifs at h with huuid
  obtain rfl := Option.some.inj h
  exact huuid

theorem Contents.emptied (h : Contents answer) : Contents { answer with accounts := [] } :=
  ⟨Nat.zero_le _, nofun, h.defaultAccount, h.archive⟩

theorem Contents.record (h : Contents answer) {type : ℕ} {body : TbCursor}
    (hrecord : answer.record type body = some answer') : Contents answer' := by
  unfold Answer.record at hrecord
  split at hrecord
  · obtain ⟨values, -, haccount⟩ := Option.bind_eq_some_iff.mp hrecord
    unfold Answer.account at haccount
    split at haccount
    · split_ifs at haccount with hfull
      · obtain rfl := Option.some.inj haccount
        exact h
      · -- there is room, and only an id that has been copied makes an account
        obtain ⟨id, hid, hsome⟩ := Option.bind_eq_some_iff.mp haccount
        obtain rfl := Option.some.inj hsome
        refine ⟨?_, ?_, h.defaultAccount, h.archive⟩
        · rw [length_append, length_singleton]
          omega
        · exact forall_mem_append.mpr ⟨h.ids, forall_mem_singleton.mpr (isUuid_of_copy hid)⟩
    · cases haccount
  · obtain ⟨values, -, hprefs⟩ := Option.bind_eq_some_iff.mp hrecord
    unfold Answer.prefs at hprefs
    split at hprefs
    · next defaultAccount _ _ _ _ _ =>
      obtain rfl := Option.some.inj hprefs
      refine ⟨h.accounts_le, h.ids, ?_, fun hlist => ?_⟩
      · cases hcopy : tbCopyUuid defaultAccount with
        | none => exact Or.inl rfl
        | some id => exact Or.inr (isUuid_of_copy hcopy)
      · dsimp only at hlist ⊢
        split_ifs at hlist with harchive
        · exact decide_eq_true harchive.1
        · exact absurd rfl hlist
    · cases hprefs
  · obtain rfl := Option.some.inj hrecord
    exact ⟨h.accounts_le, h.ids, h.defaultAccount, h.archive⟩
  · cases hrecord

theorem Contents.parseLoop (fuel : ℕ) : ∀ {answer : Answer} (cursor : TbCursor), Contents answer →
    Contents (Answer.parseLoop fuel answer cursor).1 := by
  induction fuel with
  | zero => exact fun _ h => h
  | succ fuel ih =>
    intro answer cursor h
    rw [Answer.parseLoop]
    split_ifs
    · exact h
    · split
      · exact h
      · split
        · exact h
        · next hrecord => exact ih _ (h.record hrecord)

theorem Contents.parse (h : Contents answer) (response : TbResponse) :
    Contents (answer.parse response).1 := by
  unfold Answer.parse
  apply Contents.parseLoop
  split_ifs
  · exact ⟨Nat.zero_le _, nofun, Or.inl rfl, fun hlist => absurd rfl hlist⟩
  · exact h

section

variable (h : Contents session.toAnswer)
include h

theorem sound_settle {error : ℤ}
    (hloaded : session.loaded = true → error = tbErrorNone) : Sound (session.settle error) :=
  ⟨h, iff_of_true rfl rfl, fun hload => ⟨rfl, hloaded hload⟩⟩

theorem sound_failed (hloaded : session.loaded = false) (error : ℤ) :
    Sound (session.settle error) :=
  sound_settle h fun hload => absurd (hloaded.symm.trans hload) Bool.false_ne_true

theorem sound_submit (hphase : session.phase ≠ .idle)
    (hloaded : session.loaded = false) : Sound (session.submit submitted) := by
  unfold TbSession.submit
  split_ifs with hfailed
  · exact sound_failed h hloaded _
  · rw [not_and_not_right] at hfailed
    exact ⟨h, iff_of_false hphase fun hzero => hphase (hfailed hzero),
      fun hload => absurd (hloaded.symm.trans hload) Bool.false_ne_true⟩

theorem sound_bootstrap (hloaded : session.loaded = false) :
    Sound (session.bootstrap submitted) :=
  sound_submit h nofun hloaded

end

theorem Sound.start (h : Sound session) (transportReady : Bool) :
    Sound (session.start submitted transportReady) := by
  unfold TbSession.start
  split_ifs
  · exact sound_submit h.contents.emptied nofun rfl
  · exact sound_failed h.contents.emptied rfl _

def rank (session : TbSession) : ℕ :=
  match session.phase with
  | .idle => 0
  | .hello => 2
  | .bootstrap => 1

theorem rank_bootstrap (session : TbSession) (submitted : Submitted) :
    rank (session.bootstrap submitted) < 2 := by
  unfold TbSession.bootstrap TbSession.submit
  split_ifs
  · exact Nat.zero_lt_two
  · exact Nat.one_lt_two

/-- **A response** keeps the session sound, and its last message leaves less to wait for. -/
theorem completed_spec (h : Sound session) {sequence : ℕ} (hsequence : sequence ≠ 0)
    (response : TbResponse) :
    Sound (session.completed submitted sequence response) ∧
      (sequence = session.pending → response.outcome ≠ .cancelled → response.final = true →
        rank (session.completed submitted sequence response) < rank session) := by
  unfold TbSession.completed
  by_cases hother : sequence ≠ session.pending ∨ response.outcome = .cancelled
  · rw [if_pos hother]
    exact ⟨h, fun hown hkept => absurd hother (by simp [hown, hkept])⟩
  rw [if_neg hother]
  rw [not_or, not_not] at hother
  have hphase : session.phase ≠ .idle := fun hidle => hsequence (hother.1.trans (h.busy.mp hidle))
  have hloaded : session.loaded = false := Bool.eq_false_iff.mpr fun hload => hphase (h.loaded hload).1
  -- `hello` goes on to `bootstrap` or ends; `bootstrap` ends, or waits for what follows the message
  cases hcase : session.phase with
  | idle => exact absurd hcase hphase
  | hello =>
    have hrank : rank session = 2 := by rw [rank, hcase]
    rw [if_pos rfl, hrank]
    split_ifs
    · exact ⟨sound_bootstrap h.contents hloaded, fun _ _ _ => rank_bootstrap session submitted⟩
    · exact ⟨sound_failed h.contents hloaded _, fun _ _ _ => Nat.zero_lt_two⟩
  | bootstrap =>
    have hrank : rank session = 1 := by rw [rank, hcase]
    have hparsed := h.contents.parse response
    rw [if_neg nofun, hrank]
    dsimp only
    by_cases hfailed : response.outcome ≠ .response ∨ response.result ≠ tbResultOk
    · rw [if_pos hfailed]
      refine ⟨sound_failed ?_ ?_ _, fun _ _ _ => Nat.zero_lt_one⟩
      · exact h.contents
      · exact hloaded
    · rw [if_neg hfailed]
      split
      · next answer hparse =>
        rw [hparse] at hparsed
        refine ⟨sound_failed ?_ ?_ _, fun _ _ _ => Nat.zero_lt_one⟩
        · exact hparsed.emptied
        · exact hloaded
      · next answer hparse =>
        rw [hparse] at hparsed
        split_ifs with hfinal
        · refine ⟨sound_settle ?_ fun _ => rfl, fun _ _ _ => Nat.zero_lt_one⟩
          exact hparsed
        · refine ⟨⟨hparsed, ?_, fun hload => ?_⟩, fun _ _ hlast => absurd hlast hfinal⟩
          · exact hcase ▸ h.busy
          · exact absurd (hloaded.symm.trans hload) Bool.false_ne_true

theorem Sound.step (h : Sound session) (event : Submitted × SessionEvent) : Sound (step session event) := by
  obtain ⟨submitted, event⟩ := event
  cases event with
  | start transportReady => exact h.start transportReady
  | retry =>
    simp only [Session.step]
    split_ifs
    · exact h.start true
    · exact h
  | ready sequence =>
    simp only [Session.step, TbSession.ready]
    split_ifs with hhello hidle
    · -- a session that waits for a greeting has a request pending, and none has the number 0
      have hsequence : sequence ≠ 0 := by
        rintro rfl
        have hbusy := h.busy.mpr hhello.2.symm
        rw [hhello.1] at hbusy
        cases hbusy
      exact (completed_spec h hsequence _).1
    · exact sound_bootstrap h.contents hidle.2
    · exact h
  | refresh =>
    simp only [Session.step, TbSession.refresh]
    split_ifs
    · exact h
    · exact sound_bootstrap h.contents.emptied rfl
  | stop => exact ⟨h.contents, iff_of_true rfl rfl, fun hload => ⟨rfl, (h.loaded hload).2⟩⟩
  | completed sequence response =>
    simp only [Session.step]
    split_ifs with hzero
    · exact h
    · exact (completed_spec h hzero response).1

/-- **The session of every run.** A request is pending just while it is busy; what is loaded was answered
to its end, without an error; there are at most eight accounts, all with the id of an account; the archive
is listed only where it is shown. With the last message of the answer to what is pending less is left to
wait for, so that it is not busy for more than two answers. The account that it opens first is one of its
accounts and ready. -/
theorem session_of_run (events : List (Submitted × SessionEvent)) :
    let session := events.foldl step {}
    Sound session ∧
      (∀ submitted response, session.phase ≠ .idle → response.outcome ≠ .cancelled →
        response.final = true →
          rank (step session (submitted, .completed session.pending response)) < rank session) ∧
      ∀ index, session.initialAccount = some index →
        ∃ account, session.accounts[index]? = some account ∧ account.state = tbAccountStateReady := by
  intro session
  have hsound : Sound session := by
    apply foldlRecOn events step
    · exact ⟨⟨Nat.zero_le _, nofun, Or.inl rfl, fun hlist => absurd rfl hlist⟩, iff_of_true rfl rfl, nofun⟩
    · exact fun _ h event _ => h.step event
  refine ⟨hsound, fun submitted response hphase hkept hfinal => ?_, fun index hindex => ?_⟩
  · have hpending : session.pending ≠ 0 := fun hzero => hphase (hsound.busy.mpr hzero)
    simp only [step, if_neg hpending]
    exact (completed_spec hsound hpending response).2 rfl hkept hfinal
  · have hready : session.accountReady index = true := by
      rcases Option.or_eq_some_iff.mp hindex with hchosen | ⟨-, honly⟩
      · exact (Option.filter_eq_some_iff.mp hchosen).2
      · split_ifs at honly with hone
        obtain rfl := Option.some.inj honly
        exact hone.2
    cases haccount : session.accounts[index]? with
    | none => simp [TbSession.accountReady, haccount] at hready
    | some account => exact ⟨account, rfl, by simpa [TbSession.accountReady, haccount] using hready⟩

end Watch.Session
