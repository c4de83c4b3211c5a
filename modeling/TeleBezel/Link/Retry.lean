import TeleBezel.Link.Restored
import TeleBezel.Phone.SendNumbers

/-!
# A retry is a new attempt

The tracker of the watch counts the attempts of the draft it follows, and the phone files its entries
under these numbers and keeps them for an hour. The count begins at zero again when the tracker takes
up a draft from a restored record, whatever the phone has of this draft: the next retry then bears a
number of an earlier attempt, and the phone answers with what came of that.
-/

open List

namespace Link

open Phone Watch Transition Compose

/-- A SEND request under way: what it carries, whether it is a retry, and whether a request for its
attempt has reached the phone. -/
structure Request where
  draftId : ℕ
  attempt : ℕ
  account : JsString
  chat : JsString
  reply : JsString
  again : Bool
  delivered : Bool := false
deriving DecidableEq

def Request.payload (request : Request) : SendPayload where
  draftId := request.draftId
  attempt := request.attempt
  account := request.account
  chat := request.chat
  reply := request.reply

def units (value : CString) : JsString := value.map UInt8.toNat

structure Session where
  tracker : TbSendTracker := {}
  phone : Compose := {}
  requests : List Request := []

def sentBy (before after : TbSendTracker) (again : Bool) : List Request :=
  (after.calls.drop before.calls.length).filterMap fun call =>
    match call with
    | .request false draftId attempt account chat message =>
      some { draftId, attempt, account := units account, chat := units chat,
             reply := units message, again }
    | _ => none

inductive SessionEvent
  /-- The tracker is called, or called back. -/
  | watch (event : SendEvent)
  /-- The watch app starts again. -/
  | restart
  /-- A request reaches the phone; it may be sent again. -/
  | deliver (i sequence : ℕ) (env : Env)
  /-- A request is lost. -/
  | lose (i : ℕ)
  /-- Something else happens to the phone. -/
  | phone (env : Env) (event : Event)

namespace Session

def watch (s : Session) : SendEvent → Session
  | .start submitted target draftId again title preview =>
    let tracker := (s.tracker.tbSendStart submitted target draftId again title preview).2
    { s with
      tracker
      requests := s.requests ++
        if submitted.sequence = 0 then [] else sentBy s.tracker tracker again }
  | event => { s with tracker := s.tracker.step event }

def reached (request other : Request) : Request :=
  if other.draftId = request.draftId ∧ other.attempt = request.attempt then
    { other with delivered := true }
  else other

def step (s : Session) : SessionEvent → Session
  | .watch event => s.watch event
  | .restart => { s with tracker := {} }
  | .deliver i sequence env => match s.requests[i]? with
    | some request =>
      { s with
        phone := s.phone.send env sequence request.payload
        requests := s.requests.map (reached request) }
    | none => s
  | .lose i => { s with requests := s.requests.eraseIdx i }
  | .phone env event => match event with
    | .send _ _ => s
    | event => { s with phone := s.phone.step (env, event) }

end Session

def Known (s : Session) (draftId attempt : ℕ) : Prop :=
  Holds s.phone draftId attempt ∨
    ∃ request ∈ s.requests, request.draftId = draftId ∧ request.attempt = attempt

/-- The condition on an event. Where the tracker begins to count at zero, no attempt of the draft
but the first is known, and none at all for a retry. -/
def Counts (s : Session) : SessionEvent → Prop
  | .watch (.start _ _ draftId again _ _) =>
    s.tracker.tbSendBusy = false →
      if s.tracker.status.draftId = draftId then
        -- the count comes round
        again = true → s.tracker.attempt = 255 → ∀ n, ¬ Known s draftId n
      else ∀ n, Known s draftId n → n = 0 ∧ again = false
  | .watch (.record record true) =>
    s.tracker.tbSendBusy = false → s.tracker.status.draftId ≠ record.draftId →
      ∀ n, Known s record.draftId n → n = 0
  | _ => True

/-- The count is not behind what is known of the draft, and a retry that has not reached the phone
has no entry there. -/
structure Ahead (s : Session) : Prop where
  phone : Only (fun _ _ => True) s.phone
  small : s.tracker.attempt < 256 ∧ ∀ request ∈ s.requests, request.attempt < 256
  behind : s.tracker.status.draftId ≠ 0 → ∀ n, Known s s.tracker.status.draftId n →
    n ≤ s.tracker.attempt
  fresh : ∀ request ∈ s.requests, request.again = true → request.delivered = false →
    ¬ Holds s.phone request.draftId request.attempt

/-- The phone begins a new entry for a request, and says nothing: it posts it, at once or when the
poll that it waits for is answered. -/
structure Begun (env : Env) (value : Settings) (request : Request) (c c' : Compose) : Prop where
  entries : c'.entries = c.entries ++ [c.next]
  draftId : (c'.heap c.next).draftId = request.draftId
  attempt : (c'.heap c.next).attempt = request.attempt
  key : (c'.heap c.next).key = newKey env.now env.random
  keys : c'.keys = c.keys ++ [newKey env.now env.random]
  output : c'.output = c.output
  posted :
    if env.primed then
      ∃ post, c'.posts = c.posts ++ [post] ∧ post.key = newKey env.now env.random
    else
      c'.tasks = c.tasks ++ [.poll c.next value] ∧
        ∀ env' outcome, ∃ earlier post,
          (c'.step (env', .polled c.tasks.length outcome)).posts = earlier ++ [post] ∧
            post.key = newKey env.now env.random

section Tracker

variable (tracker : TbSendTracker) (submitted : Submitted)

theorem begin_spec (target : TbSendTarget) (draftId : ℕ) (title preview : CString) (again : Bool) :
    let tracker' := tracker.begin submitted target draftId title preview
    tracker'.attempt = tracker.attempt ∧ tracker'.status.draftId = draftId ∧
      ∀ request ∈ sentBy tracker tracker' again, request.draftId = draftId ∧
        request.attempt = tracker.attempt ∧ request.again = again ∧ request.delivered = false := by
  unfold TbSendTracker.begin TbSendTracker.submit
  by_cases hsequence : submitted.sequence = 0
  · simp [hsequence, TbSendTracker.notify, sentBy]
  · simp [hsequence, TbSendTracker.notify, sentBy]

theorem tbSendStart_spec (target : TbSendTarget)
    (draftId : ℕ) (again : Bool) (title preview : CString) :
    let tracker' := (tracker.tbSendStart submitted target draftId again title preview).2
    tracker' = tracker ∨
      draftId ≠ 0 ∧ tracker.tbSendBusy = false ∧ tracker'.status.draftId = draftId ∧
      (∀ request ∈ sentBy tracker tracker' again, request.draftId = draftId ∧
        request.attempt = tracker'.attempt ∧ request.again = again ∧ request.delivered = false) ∧
      (tracker.status.draftId = draftId ∧
          tracker'.attempt = (if again then (tracker.attempt + 1) % 256 else tracker.attempt) ∨
        tracker.status.draftId ≠ draftId ∧ tracker'.attempt = 0) := by
  unfold TbSendTracker.tbSendStart
  dsimp only
  split
  · exact Or.inl rfl
  next hgiven =>
  have hsome : draftId ≠ 0 := fun h => hgiven (Or.inl h)
  split
  · exact Or.inl rfl
  next hbusy =>
  split
  · exact Or.inl rfl
  split
  · next hsame =>
    split
    · exact Or.inl rfl
    · obtain ⟨hattempt, hdraft, hsent⟩ := begin_spec
        { tracker with attempt := (tracker.attempt + 1) % 256 } submitted target draftId title
        preview again
      refine Or.inr ⟨hsome, by simpa using hbusy, hdraft, ?_, Or.inl ⟨by simpa using hsame.1, ?_⟩⟩
      · rw [hattempt]
        exact hsent
      · rw [if_pos hsame.2]
        exact hattempt
  next hagain =>
  split
  · next hsame =>
    have hfirst : again = false := by
      by_contra h
      exact hagain ⟨hsame, by simpa using h⟩
    obtain ⟨hattempt, hdraft, hsent⟩ := begin_spec tracker submitted target draftId title preview
      again
    refine Or.inr ⟨hsome, by simpa using hbusy, hdraft, ?_, Or.inl ⟨by simpa using hsame, ?_⟩⟩
    · rw [hattempt]
      exact hsent
    · rw [hfirst]
      exact hattempt
  · next hother =>
    obtain ⟨hattempt, hdraft, hsent⟩ := begin_spec { tracker with attempt := 0 } submitted target
      draftId title preview again
    refine Or.inr ⟨hsome, by simpa using hbusy, hdraft, ?_, Or.inr ⟨by simpa using hother, hattempt⟩⟩
    rw [hattempt]
    exact hsent

def Counting (tracker' : TbSendTracker) : Prop :=
  tracker'.attempt = tracker.attempt ∧ tracker'.status.draftId = tracker.status.draftId

theorem counting_apply (record : TbSendStateRecord) : Counting tracker (tracker.apply record) := by
  refine ⟨?_, TbSendTracker.draftId_apply tracker record⟩
  unfold TbSendTracker.apply
  dsimp only
  split
  · rfl
  · split
    · rfl
    · rfl

theorem counting_completed (sequence : ℕ) (response : TbResponse) :
    Counting tracker (tracker.completed sequence response) := by
  unfold TbSendTracker.completed
  split
  · exact ⟨rfl, rfl⟩
  · dsimp only
    split
    · exact counting_apply _ _
    · refine ⟨?_, TbSendTracker.draftId_unanswered _ sequence response⟩
      unfold TbSendTracker.unanswered
      dsimp only
      split
      · rfl
      · split
        · rfl
        · rfl

theorem counting_tbSendCheck :
    Counting tracker (tracker.tbSendCheck submitted).2 := by
  unfold TbSendTracker.tbSendCheck
  split
  · exact ⟨rfl, rfl⟩
  · exact ⟨rfl, rfl⟩

theorem counting_tbSendClose : Counting tracker tracker.tbSendClose := by
  unfold TbSendTracker.tbSendClose
  split
  · exact ⟨rfl, rfl⟩
  · exact ⟨rfl, rfl⟩

theorem tbSendRecord_spec (record : TbSendStateRecord) (restored : Bool) :
    Counting tracker (tracker.tbSendRecord record restored).2 ∨
      restored = true ∧ tracker.tbSendBusy = false ∧ tracker.status.draftId ≠ record.draftId ∧
        (tracker.tbSendRecord record restored).2.attempt = 0 ∧
        (tracker.tbSendRecord record restored).2.status.draftId = record.draftId := by
  unfold TbSendTracker.tbSendRecord
  split
  · exact Or.inl ⟨rfl, rfl⟩
  split
  · next hother =>
    split
    · exact Or.inl ⟨rfl, rfl⟩
    · next htaken =>
      simp only [not_or, Bool.not_eq_false, Bool.not_eq_true] at htaken
      exact Or.inr ⟨htaken.1, htaken.2, fun h => hother h.symm,
        (counting_apply _ record).1, (counting_apply _ record).2⟩
  · split
    · exact Or.inl ⟨rfl, rfl⟩
    · exact Or.inl (counting_apply _ _)

end Tracker

variable {s s' : Session}

theorem Known.of_append {draftId n : ℕ} {sent : List Request} (hphone : s'.phone = s.phone)
    (hrequests : s'.requests = s.requests ++ sent) (h : Known s' draftId n) :
    Known s draftId n ∨ ∃ request ∈ sent, request.draftId = draftId ∧ request.attempt = n := by
  rcases h with hholds | ⟨request, hmem, hrequest⟩
  · rw [hphone] at hholds
    exact Or.inl (Or.inl hholds)
  · rw [hrequests] at hmem
    rcases mem_append.mp hmem with hold | hnew
    · exact Or.inl (Or.inr ⟨request, hold, hrequest⟩)
    · exact Or.inr ⟨request, hnew, hrequest⟩

namespace Ahead

section

variable (h : Ahead s)
include h

theorem counted (hphone : s'.phone = s.phone) (hrequests : s'.requests = s.requests)
    (hattempt : s'.tracker.attempt < 256)
    (hbehind : s'.tracker.status.draftId ≠ 0 → ∀ n, Known s s'.tracker.status.draftId n →
      n ≤ s'.tracker.attempt) : Ahead s' where
  phone := by
    rw [hphone]
    exact h.phone
  small := by
    rw [hrequests]
    exact ⟨hattempt, h.small.2⟩
  behind := by
    intro hdraft n hknown
    refine hbehind hdraft n ?_
    rw [Known, hphone, hrequests] at hknown
    exact hknown
  fresh := by
    rw [hphone, hrequests]
    exact h.fresh

theorem counting (hphone : s'.phone = s.phone) (hrequests : s'.requests = s.requests)
    (hcounting : Counting s.tracker s'.tracker) : Ahead s' := by
  refine h.counted hphone hrequests ?_ ?_
  · rw [hcounting.1]
    exact h.small.1
  · rw [hcounting.1, hcounting.2]
    exact h.behind

theorem started {draftId : ℕ} {again : Bool} {sent : List Request}
    (hphone : s'.phone = s.phone) (hrequests : s'.requests = s.requests ++ sent)
    (hdraft : s'.tracker.status.draftId = draftId)
    (hsent : ∀ request ∈ sent, request.draftId = draftId ∧
      request.attempt = s'.tracker.attempt ∧ request.again = again ∧ request.delivered = false)
    (hattempt : s'.tracker.attempt < 256)
    (hbehind : draftId ≠ 0 → ∀ n, Known s draftId n → n ≤ s'.tracker.attempt)
    (hnew : again = true → ¬ Known s draftId s'.tracker.attempt) : Ahead s' where
  phone := by
    rw [hphone]
    exact h.phone
  small := by
    refine ⟨hattempt, ?_⟩
    intro request hmem
    rw [hrequests] at hmem
    rcases mem_append.mp hmem with hold | hnew
    · exact h.small.2 request hold
    · rw [(hsent request hnew).2.1]
      exact hattempt
  behind := by
    rw [hdraft]
    intro hdraft n hknown
    rcases hknown.of_append hphone hrequests with hold | ⟨request, hmem, -, rfl⟩
    · exact hbehind hdraft n hold
    · exact (hsent request hmem).2.1.le
  fresh := by
    intro request hmem hagain hfirst
    rw [hphone]
    rw [hrequests] at hmem
    rcases mem_append.mp hmem with hold | hlast
    · exact h.fresh request hold hagain hfirst
    · obtain ⟨hid, hnumber, hsame, -⟩ := hsent request hlast
      rw [hid, hnumber]
      intro hholds
      exact hnew (hsame.symm.trans hagain) (Or.inl hholds)

theorem start (submitted : Submitted) (target : TbSendTarget) (draftId : ℕ)
    (again : Bool) (title preview : CString)
    (hcounts : Counts s (.watch (.start submitted target draftId again title preview))) :
    Ahead (s.watch (.start submitted target draftId again title preview)) := by
  rcases tbSendStart_spec s.tracker submitted target draftId again title preview with
    hsame | ⟨hsome, hbusy, hdraft, hsent, hnumber⟩
  · refine h.counting rfl ?_ ?_
    · simp [Session.watch, hsame, sentBy]
    · simp [Session.watch, hsame, Counting]
  · have hall : ∀ request ∈ (if submitted.sequence = 0 then [] else sentBy s.tracker
        (s.tracker.tbSendStart submitted target draftId again title preview).2 again),
        request.draftId = draftId ∧ request.attempt =
          (s.tracker.tbSendStart submitted target draftId again title preview).2.attempt ∧
          request.again = again ∧ request.delivered = false := by
      intro request hmem
      split at hmem
      · exact absurd hmem (by simp)
      · exact hsent request hmem
    simp only [Counts, hbusy, forall_const] at hcounts
    rcases hnumber with ⟨hid, hnumber⟩ | ⟨hid, hnumber⟩
    · rw [if_pos hid] at hcounts
      have hsmall := h.small.1
      have hknown : ∀ n, Known s draftId n → n ≤ s.tracker.attempt := by
        rw [← hid] at hsome ⊢
        exact h.behind hsome
      cases again with
      | false =>
        refine h.started rfl rfl hdraft hall ?_ ?_ (by simp)
        · rw [Session.watch, hnumber]
          exact hsmall
        · intro _ n hn
          rw [Session.watch, hnumber]
          exact hknown n hn
      | true =>
        -- the number goes up by one, unless it comes round and nothing is known
        have hnext : ∀ n, Known s draftId n → n < (s.tracker.attempt + 1) % 256 := by
          intro n hn
          have hlast : s.tracker.attempt ≠ 255 := fun h => hcounts rfl h n hn
          have hle := hknown n hn
          omega
        refine h.started rfl rfl hdraft hall ?_ ?_ ?_
        · rw [Session.watch, hnumber]
          exact Nat.mod_lt _ (by decide)
        · intro _ n hn
          rw [Session.watch, hnumber]
          exact (hnext n hn).le
        · intro _ hn
          rw [Session.watch, hnumber] at hn
          exact absurd (hnext _ hn) (lt_irrefl _)
    · rw [if_neg hid] at hcounts
      refine h.started rfl rfl hdraft hall ?_ ?_ ?_
      · rw [Session.watch, hnumber]
        exact Nat.zero_lt_succ _
      · intro _ n hknown
        rw [(hcounts n hknown).1]
        exact Nat.zero_le _
      · intro hagain hknown
        rw [(hcounts _ hknown).2] at hagain
        exact absurd hagain (by simp)

theorem watch (event : SendEvent) (hcounts : Counts s (.watch event)) :
    Ahead (s.watch event) := by
  cases event with
  | start submitted target draftId again title preview =>
    exact h.start submitted target draftId again title preview hcounts
  | check submitted => exact h.counting rfl rfl (counting_tbSendCheck _ submitted)
  | completed sequence response => exact h.counting rfl rfl (counting_completed _ sequence response)
  | close => exact h.counting rfl rfl (counting_tbSendClose _)
  | forget draftId =>
    refine h.counted rfl rfl ?_ ?_
    · simp only [Session.watch, TbSendTracker.step, TbSendTracker.tbSendForget]
      split
      · exact h.small.1
      · exact h.small.1
    · simp only [Session.watch, TbSendTracker.step, TbSendTracker.tbSendForget]
      split
      · exact h.behind
      · exact fun hnone => absurd rfl hnone
  | record record restored =>
    rcases tbSendRecord_spec s.tracker record restored with
      hcounting | ⟨rfl, hbusy, hother, hattempt, hdraft⟩
    · exact h.counting rfl rfl hcounting
    · refine h.counted rfl rfl ?_ ?_
      · simp only [Session.watch, TbSendTracker.step, hattempt]
        exact Nat.zero_lt_succ _
      · simp only [Session.watch, TbSendTracker.step, hattempt, hdraft]
        exact fun _ n hknown => (hcounts hbusy hother n hknown).le

theorem deliver {i : ℕ} {request : Request} (hrequest : s.requests[i]? = some request)
    (sequence : ℕ) (env : Env) :
    Ahead { s with
      phone := s.phone.send env sequence request.payload
      requests := s.requests.map (Session.reached request) } := by
  have hmem : request ∈ s.requests := mem_of_getElem? hrequest
  have hnumber : attemptOf request.payload = request.attempt := by
    have hsmall := h.small.2 request hmem
    simp [attemptOf, Request.payload, Nat.mod_eq_of_lt hsmall]
  have honly : Only (fun d n => Holds s.phone d n ∨ d = request.draftId ∧ n = request.attempt)
      (s.phone.send env sequence request.payload) := by
    refine only_send (h.phone.holds.mono fun _ _ hd => Or.inl hd) sequence request.payload ?_
    rw [hnumber]
    exact Or.inr ⟨rfl, rfl⟩
  have hsame : ∀ other, (Session.reached request other).draftId = other.draftId ∧
      (Session.reached request other).attempt = other.attempt := by
    intro other
    unfold Session.reached
    split
    · exact ⟨rfl, rfl⟩
    · exact ⟨rfl, rfl⟩
  constructor
  · exact honly.mono fun _ _ _ => trivial
  · refine ⟨h.small.1, fun other hother => ?_⟩
    obtain ⟨before, hbefore, rfl⟩ := mem_map.mp hother
    rw [(hsame before).2]
    exact h.small.2 before hbefore
  · intro hdraft n hknown
    refine h.behind hdraft n ?_
    rcases hknown with hholds | ⟨other, hother, hid, hn⟩
    · rcases hholds.of_only honly with hold | ⟨hid, hn⟩
      · exact Or.inl hold
      · exact Or.inr ⟨request, hmem, hid.symm, hn.symm⟩
    · obtain ⟨before, hbefore, rfl⟩ := mem_map.mp hother
      rw [(hsame before).1] at hid
      rw [(hsame before).2] at hn
      exact Or.inr ⟨before, hbefore, hid, hn⟩
  · intro other hother hagain hfirst hholds
    obtain ⟨before, hbefore, rfl⟩ := mem_map.mp hother
    unfold Session.reached at hagain hfirst hholds
    split at hfirst
    · exact absurd hfirst (by simp)
    · next hdiffers =>
      rw [if_neg hdiffers] at hagain hholds
      rcases hholds.of_only honly with hold | hnew
      · exact h.fresh before hbefore hagain hfirst hold
      · exact hdiffers hnew

theorem phoneStep (env : Env) (event : Event)
    (hsend : ∀ sequence payload, event ≠ .send sequence payload) :
    Ahead { s with phone := s.phone.step (env, event) } := by
  have honly : Only (Holds s.phone) (s.phone.step (env, event)) :=
    only_step h.phone.holds (env, event) hsend
  refine ⟨honly.mono fun _ _ _ => trivial, h.small, fun hdraft n hknown => ?_,
    fun request hmem hagain hfirst hholds => ?_⟩
  · refine h.behind hdraft n ?_
    exact hknown.imp_left fun hholds => hholds.of_only honly
  · exact h.fresh request hmem hagain hfirst (hholds.of_only honly)

theorem lose (i : ℕ) : Ahead { s with requests := s.requests.eraseIdx i } := by
  have hsub : ∀ request ∈ s.requests.eraseIdx i, request ∈ s.requests :=
    fun request hmem => mem_of_mem_eraseIdx hmem
  refine ⟨h.phone, ⟨h.small.1, fun request hmem => h.small.2 request (hsub request hmem)⟩,
    fun hdraft n hknown => ?_, fun request hmem => h.fresh request (hsub request hmem)⟩
  refine h.behind hdraft n ?_
  exact hknown.imp_right fun ⟨request, hmem, hrequest⟩ => ⟨request, hsub request hmem, hrequest⟩

end

end Ahead

theorem ahead_step (h : Ahead s) (event : SessionEvent) (hcounts : Counts s event) :
    Ahead (s.step event) := by
  cases event with
  | watch event => exact h.watch event hcounts
  | restart => exact h.counted rfl rfl (Nat.zero_lt_succ _) fun hnone => absurd rfl hnone
  | deliver i sequence env =>
    simp only [Session.step]
    split
    · next request hrequest => exact h.deliver hrequest sequence env
    · exact h
  | lose i => exact h.lose i
  | phone env event =>
    simp only [Session.step]
    split
    · exact h
    · next hsend => exact h.phoneStep env event hsend

theorem ahead_empty : Ahead {} where
  phone := ⟨by simp, by simp, by simp [slot], by simp, by simp⟩
  small := ⟨by simp, by simp⟩
  behind := by simp
  fresh := by simp

theorem polled_posts {c : Compose} {i ref : ℕ} {value : Settings}
    (htask : c.tasks[i]? = some (.poll ref value)) (href : ref < c.next) (env : Env)
    (outcome : Outcome) :
    ∃ earlier post, (c.step (env, .polled i outcome)).posts = earlier ++ [post] ∧
      post.toIdentity = (c.heap ref).toIdentity := by
  have hstep : c.step (env, .polled i outcome) = (c.take i).polled env ref value outcome := by
    simp only [Compose.step, htask]
  have hidentity := toIdentity_step c (env, .polled i outcome) href
  rw [hstep] at hidentity ⊢
  exact ⟨_, _, rfl, hidentity⟩

theorem begun_send {c : Compose} {env : Env} {request : Request} {found : Draft} {value : Settings}
    (sequence : ℕ) (honly : Only (Holds c) c) (hsmall : request.attempt < 256)
    (hfresh : ¬ Holds c request.draftId request.attempt)
    (hfound : (c.load env).drafts request.draftId = some found)
    (hbusy : (c.load env).busy = false) (htarget : sameTarget found request.payload = true)
    (hlong : found.tooLong = false) (hsettings : env.settings = some value) :
    Begun env value request (c.load env) (c.send env sequence request.payload) := by
  have hload : Only (Holds c) (c.load env) := honly.load
  have hnumber : attemptOf request.payload = request.attempt := by
    simp [attemptOf, Request.payload, Nat.mod_eq_of_lt hsmall]
  have hnone : found.attempts request.attempt = none := by
    rw [Option.eq_none_iff_forall_ne_some]
    intro ref href
    refine hfresh (hload.slots request.draftId request.attempt ref ?_)
    rw [slot, hfound]
    exact href
  have hsend : c.send env sequence request.payload =
      (c.load env).begin env found request.attempt sequence value := by
    have hid : request.payload.draftId = request.draftId := rfl
    simp only [send, hid, hfound, sendDraft, htarget, hlong, hnumber, hnone,
      sendNew, hbusy, hsettings]
    rfl
  have hdraft : found.id = request.draftId := hload.ids request.draftId found hfound
  rw [hsend]
  unfold begin
  by_cases hprimed : env.primed = true
  · rw [if_pos hprimed]
    constructor
    · rfl
    · simp [dispatch, enter, newEntry, hdraft]
    · simp [dispatch, enter, newEntry]
    · simp [dispatch, enter, newEntry]
    · rfl
    · rfl
    · rw [if_pos hprimed]
      refine ⟨_, rfl, ?_⟩
      simp [enter, newEntry]
  · rw [if_neg hprimed]
    constructor
    · rfl
    · simp [enter, newEntry, hdraft]
    · simp [enter, newEntry]
    · simp [enter, newEntry]
    · rfl
    · rfl
    · rw [if_neg hprimed]
      refine ⟨rfl, fun env' outcome => ?_⟩
      have htask : (((c.load env).enter env found request.attempt sequence value).await
          (.poll (c.load env).next value)).tasks[(c.load env).tasks.length]? =
          some (.poll (c.load env).next value) := by simp [enter]
      obtain ⟨earlier, post, hposts, hpost⟩ :=
        polled_posts htask (by simp [enter]) env' outcome
      refine ⟨earlier, post, hposts, ?_⟩
      rw [congrArg Identity.key hpost]
      simp [enter, newEntry]

/-- **Every retry is a new attempt.** In every run in which the count begins again only for drafts
of which no later attempt is known, a retry that reaches a phone with the draft, which is not
dispatching and does not refuse the request, makes a new entry with a new key that is posted, and is
not answered with what came of an earlier attempt. -/
theorem fresh_retry_of_run {events : List SessionEvent} {s : Session}
    (hrun : Run (Within Counts fun s event s' => s.step event = s') {} events s)
    {request : Request} (hrequest : request ∈ s.requests) (hagain : request.again = true)
    (hfirst : request.delivered = false) {env : Env} {found : Draft} {value : Settings}
    (hfound : (s.phone.load env).drafts request.draftId = some found)
    (hbusy : (s.phone.load env).busy = false)
    (htarget : Compose.sameTarget found request.payload = true) (hlong : found.tooLong = false)
    (hsettings : env.settings = some value) (sequence : ℕ) :
    Begun env value request (s.phone.load env) (s.phone.send env sequence request.payload) := by
  have hahead : Ahead s := by
    refine hrun.invariant Ahead ?_ ahead_empty
    rintro s event _ h ⟨hcounts, rfl⟩
    exact ahead_step h event hcounts
  exact begun_send sequence hahead.phone.holds (hahead.small.2 request hrequest)
    (hahead.fresh request hrequest hagain hfirst) hfound hbusy htarget hlong hsettings

/-! The draft of the samples, sent from the watch: the service refuses it for now, the watch hears
nothing and asks to send again. -/

def sampleTarget : TbSendTarget :=
  { account := Sample.account.map UInt8.ofNat, chat := [0x31] }

/-- `tb_send_start`, for the draft. -/
def sampleStart (sequence : ℕ) (again : Bool) : SessionEvent :=
  .watch (.start { sequence } sampleTarget 1 again [] [])

def sampleRefused (now : ℤ) : SessionEvent :=
  .phone (Sample.env now) (.posted 0 (.error 429 none 0))

def sentOnce : List SessionEvent :=
  [.phone (Sample.env 0) Sample.draft, sampleStart 1 false, .deliver 0 1 (Sample.env 1),
    sampleRefused 2, .watch (.completed 1 { outcome := .timeout })]

def sentAgain : Session := (sentOnce ++ [sampleStart 2 true]).foldl Session.step {}

theorem fresh_retry_of_run_refused :
    ∃ request ∈ sentAgain.requests, request.attempt = 1 ∧
      Begun (Sample.env 3) Sample.settings request (sentAgain.phone.load (Sample.env 3))
        (sentAgain.phone.send (Sample.env 3) 2 request.payload) := by
  have hfirst : Counts (Session.step {} (.phone (Sample.env 0) Sample.draft))
      (sampleStart 1 false) := by
    intro _
    rw [if_neg (by decide)]
    rintro n (hholds | ⟨request, hmem, -⟩)
    · have honly : Only (fun _ _ => False) (Compose.step {} (Sample.env 0, Sample.draft)) :=
        only_step ⟨by simp, by simp, by simp [Compose.slot], by simp, by simp⟩ _
          (fun _ _ h => Event.noConfusion h)
      exact absurd (hholds.of_only honly) id
    · exact absurd hmem List.not_mem_nil
  have hsecond : Counts (sentOnce.foldl Session.step {}) (sampleStart 2 true) := by
    intro _
    rw [if_pos (by decide)]
    exact fun _ hround => absurd hround (by decide)
  have hrun : Run (Within Counts fun s event s' => s.step event = s') {}
      (sentOnce ++ [sampleStart 2 true]) sentAgain :=
    ((((((Run.nil _).snoc ⟨trivial, rfl⟩).snoc ⟨hfirst, rfl⟩).snoc
      ⟨trivial, rfl⟩).snoc ⟨trivial, rfl⟩).snoc ⟨trivial, rfl⟩).snoc ⟨hsecond, rfl⟩
  have hrequests : sentAgain.requests[1]? = some
      { draftId := 1, attempt := 1, account := Sample.account, chat := [49], reply := [],
        again := true } := by decide
  refine ⟨_, List.mem_of_getElem? hrequests, rfl, ?_⟩
  obtain ⟨found, hfound⟩ : ∃ found,
      (sentAgain.phone.load (Sample.env 3)).drafts 1 = some found := ⟨_, rfl⟩
  exact fresh_retry_of_run hrun (List.mem_of_getElem? hrequests) rfl rfl hfound (by decide)
    (by cases hfound; decide) (by cases hfound; decide) rfl 2

def sentTwice : Session :=
  [sampleStart 2 true, .lose 0, .deliver 0 2 (Sample.env 3), sampleRefused 4, .lose 0,
    .restart].foldl Session.step (sentOnce.foldl Session.step {})

def sentRestored : Session :=
  ((restoredEntries (sentTwice.phone.load (Sample.env 5))).map fun entry =>
    SessionEvent.watch (.record (restoredRecord (fun _ _ _ => ⟨[], false⟩) entry) true)).foldl
    Session.step sentTwice

def retryRequest : Request :=
  { draftId := 1, attempt := 1, account := Sample.account, chat := [49], reply := [], again := true }

/-- **A retry that is no new attempt**: after a restart the watch counts from zero, and the retry it
then accepts is answered with the stored outcome of the attempt of this number. -/
theorem retry_answered_from_store :
    let s := sentRestored.step (sampleStart 3 true)
    let c := s.phone.load (Sample.env 6)
    let c' := s.phone.send (Sample.env 6) 3 retryRequest.payload
    (sentRestored.tracker.tbSendStart { sequence := 3 } sampleTarget 1 true [] []).1 = true ∧
      retryRequest ∈ s.requests ∧
      (∃ found, c.drafts 1 = some found ∧ Compose.sameTarget found retryRequest.payload = true ∧
        found.tooLong = false) ∧ c.busy = false ∧
      c'.entries = c.entries ∧ c'.keys = c.keys ∧ c'.posts = c.posts ∧
      c'.output = c.output ++ [.response 3 .ok [c.recordOf 1]] ∧
      ¬ Begun (Sample.env 6) Sample.settings retryRequest c c' := by
  refine ⟨by decide, by decide, ⟨_, rfl, by decide, by decide⟩, by decide, by decide, by decide,
    by decide, by decide, ?_⟩
  intro hbegun
  exact absurd hbegun.entries (by decide)

end Link
