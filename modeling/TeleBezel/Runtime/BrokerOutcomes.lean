import TeleBezel.Runtime.BrokerCallers
import Mathlib.Data.List.Induction
import Mathlib.Data.List.Nodup

/-!
# The outcomes of requests

Every wait for the request broker ends once, with what is its own. A request that was handed to TDLib is
waited for by the broker, or its promise is set, or it timed out; the broker has nothing of it in the
last two cases, whatever it still hears.
-/

open List

namespace Runtime

open Function

namespace Callers

open TdRequestBroker

def Silent (s : Callers) (call : BrokerCall) : Prop := ∀ object, ¬s.Response call object

def Source (s : Callers) (call : BrokerCall) (object : TdObject) : Prop :=
  s.Response call object ∨
    object = .error 503 "service.stopping" ∧ .stopped ∈ s.heard.drop call.since

structure Waiting (s : Callers) (call : BrokerCall) : Prop where
  isOpen : call.wait.isOpen = true
  pending : ∃ item, (call.handle.requestId, item) ∈ s.broker.pending ∧
    item.clientId = call.handle.clientId
  unset : s.broker.answers call.handle.requestId = none
  silent : s.Silent call

structure Answered (s : Callers) (call : BrokerCall) (object : TdObject) : Prop where
  wait : call.wait.isOpen = true ∨ call.wait = .answered (some object)
  not_pending : ∀ item, (call.handle.requestId, item) ∉ s.broker.pending
  answer : s.broker.answers call.handle.requestId = some (some object)
  source : s.Source call object

structure Gone (s : Callers) (call : BrokerCall) : Prop where
  wait : ∃ start timeout recoverClient settled,
    call.wait = .timedOut start timeout recoverClient settled ∧ start + timeout ≤ settled
  not_pending : ∀ item, (call.handle.requestId, item) ∉ s.broker.pending
  unset : s.broker.answers call.handle.requestId = none

def Status (s : Callers) (call : BrokerCall) : Prop :=
  s.Waiting call ∨ (∃ object, s.Answered call object) ∨ s.Gone call

structure Refused (call : BrokerCall) : Prop where
  wait : call.wait.isOpen = true ∨ call.wait = .answered call.handle.refusal
  refusal : call.handle.refusal = some (.error 503 "service.stopping") ∧ call.stopping = true ∨
    call.handle.refusal = some (.error 503 "service.busy") ∧ requestLimit ≤ call.load

structure Sound (second : ℕ) (s : Callers) : Prop where
  broker : s.broker.Sound
  made : ∀ n, s.made ≤ n → s.calls n = none
  since : ∀ n call, s.calls n = some call → call.since ≤ s.heard.length
  late : ∀ n call start timeout recoverClient, s.calls n = some call →
    call.wait = .late start timeout recoverClient → start + timeout ≤ s.clock
  refused : ∀ n call, s.calls n = some call → call.handle.pending = false → Refused call
  below : ∀ n call, s.calls n = some call → call.handle.pending = true →
    call.handle.requestId < s.broker.nextRequestId
  unique : ∀ n call m call', s.calls n = some call → s.calls m = some call' →
    call.handle.pending = true → call'.handle.pending = true →
    call.handle.requestId = call'.handle.requestId → n = m
  status : ∀ n call, s.calls n = some call → call.handle.pending = true → s.Status call
  pending : ∀ id item, (id, item) ∈ s.broker.pending → ∃ n call, s.calls n = some call ∧
    call.handle.pending = true ∧ call.handle.requestId = id
  nodup : (s.broker.pending.map Prod.fst).Nodup
  async : ∀ item ∈ s.broker.asyncRequests, item.1 < s.broker.nextRequestId ∧
    ∀ n call, s.calls n = some call → call.handle.pending = true → call.handle.requestId ≠ item.1
  unresolved : ∀ item ∈ s.broker.unresolved, ∃ n call start timeout settled,
    s.calls n = some call ∧ call.handle.pending = true ∧ call.handle.requestId = item.1 ∧
      call.handle.clientId = item.2.clientId ∧
      call.wait = .timedOut start timeout item.2.recoverClient settled ∧
      item.2.recoveryAt = settled + 22 * second ∧ s.Silent call
  setOnce : s.set.Nodup
  mem_set : ∀ id, id ∈ s.set ↔ s.broker.answers id ≠ none
  once : (s.returned.map Prod.fst).Nodup
  listed : ∀ n outcome, (n, outcome) ∈ s.returned →
    ∃ call, s.calls n = some call ∧ call.wait.outcome = some outcome

section Status

variable {s s' : Callers} {call : BrokerCall}

theorem Status.congr (h : s.Status call)
    (hpending : ∀ item, (call.handle.requestId, item) ∈ s'.broker.pending ↔
      (call.handle.requestId, item) ∈ s.broker.pending)
    (hanswers : s'.broker.answers call.handle.requestId = s.broker.answers call.handle.requestId)
    (hheard : ∀ e ∈ s.heard.drop call.since, e ∈ s'.heard.drop call.since)
    (hsilent : s.Waiting call → s'.Silent call) : s'.Status call := by
  rcases h with h | ⟨object, h⟩ | h
  · obtain ⟨item, hitem, hclient⟩ := h.pending
    exact Or.inl ⟨h.isOpen, ⟨item, (hpending item).mpr hitem, hclient⟩, hanswers.trans h.unset,
      hsilent h⟩
  · refine Or.inr (Or.inl ⟨object, h.wait, fun item hitem => ?_, hanswers.trans h.answer, ?_⟩)
    · exact h.not_pending item ((hpending item).mp hitem)
    · exact h.source.imp (hheard _) fun hstop => ⟨hstop.1, hheard _ hstop.2⟩
  · refine Or.inr (Or.inr ⟨h.wait, fun item hitem => ?_, hanswers.trans h.unset⟩)
    exact h.not_pending item ((hpending item).mp hitem)

theorem Status.waiting (h : s.Status call) {item : Pending}
    (hitem : (call.handle.requestId, item) ∈ s.broker.pending) : s.Waiting call := by
  rcases h with h | ⟨object, h⟩ | h
  · exact h
  · exact absurd hitem (h.not_pending item)
  · exact absurd hitem (h.not_pending item)

theorem mem_heard {heard : List Heard} {e e' : Heard} (hsince : call.since ≤ heard.length) :
    e' ∈ (heard ++ [e]).drop call.since ↔ e' ∈ heard.drop call.since ∨ e' = e := by
  rw [drop_append_of_le_length hsince, mem_append, mem_singleton]

end Status

section Steps

variable {second : ℕ} {s : Callers} {call : BrokerCall} {n : ℕ}

theorem Sound.client_of_pending (h : Sound second s)
    (hcall : s.calls n = some call) (htaken : call.handle.pending = true) {item : Pending}
    (hitem : (call.handle.requestId, item) ∈ s.broker.pending) :
    item.clientId = call.handle.clientId := by
  obtain ⟨other, hother, hclient⟩ := ((h.status n call hcall htaken).waiting hitem).pending
  have heq : (call.handle.requestId, other) = (call.handle.requestId, item) :=
    inj_on_of_nodup_map h.nodup hother hitem rfl
  rw [← hclient, (Prod.mk.inj heq).2]

variable {broker : TdRequestBroker}

theorem Sound.ofBroker (h : Sound second s) (hsound : broker.Sound)
    (hpending : broker.pending = s.broker.pending) (hanswers : broker.answers = s.broker.answers)
    (hnext : s.broker.nextRequestId ≤ broker.nextRequestId)
    (hunresolved : ∀ item ∈ broker.unresolved, item ∈ s.broker.unresolved)
    (hasync : ∀ item ∈ broker.asyncRequests, item ∈ s.broker.asyncRequests ∨
      s.broker.nextRequestId ≤ item.1 ∧ item.1 < broker.nextRequestId) :
    Sound second { s with broker } where
  broker := hsound
  made := h.made
  since := h.since
  late := h.late
  refused := h.refused
  below n call hcall htaken := Nat.lt_of_lt_of_le (h.below n call hcall htaken) hnext
  unique := h.unique
  status n call hcall htaken := by
    refine (h.status n call hcall htaken).congr ?_ ?_ (fun e he => he) fun hw => hw.silent
    · intro item
      rw [hpending]
    · exact congrFun hanswers _
  pending id item hitem := h.pending id item (hpending ▸ hitem)
  nodup := by
    rw [hpending]
    exact h.nodup
  async item hitem := by
    rcases hasync item hitem with hold | ⟨hge, hlt⟩
    · exact ⟨Nat.lt_of_lt_of_le (h.async item hold).1 hnext, (h.async item hold).2⟩
    · exact ⟨hlt, fun n call hcall htaken =>
        Nat.ne_of_lt (Nat.lt_of_lt_of_le (h.below n call hcall htaken) hge)⟩
  unresolved item hitem := h.unresolved item (hunresolved item hitem)
  setOnce := h.setOnce
  mem_set id := (h.mem_set id).trans (by rw [← hanswers])
  once := h.once
  listed := h.listed

variable {other : BrokerCall} {wait : Wait} {m : ℕ}

theorem goOn_cases (h : (s.goOn n call wait).calls m = some other) :
    m = n ∧ other = { call with wait } ∨ m ≠ n ∧ s.calls m = some other := by
  change update s.calls n (some { call with wait }) m = some other at h
  by_cases heq : m = n
  · rw [heq, update_self] at h
    exact Or.inl ⟨heq, (Option.some.inj h).symm⟩
  · rw [update_of_ne heq] at h
    exact Or.inr ⟨heq, h⟩

theorem exists_of_goOn (hcall : s.calls n = some call)
    (h : (s.goOn n call wait).calls m = some other) :
    ∃ before, s.calls m = some before ∧ before.handle = other.handle ∧
      before.since = other.since := by
  rcases goOn_cases h with ⟨rfl, rfl⟩ | ⟨-, hother⟩
  · exact ⟨call, hcall, rfl, rfl⟩
  · exact ⟨other, hother, rfl, rfl⟩

section

variable (h : Sound second s)
include h

section

variable (hcall : s.calls n = some call)
include hcall

section

variable (hopen : call.wait.isOpen = true)
include hopen

theorem Sound.replace
    (hlate : ∀ start timeout recoverClient, wait = .late start timeout recoverClient →
      start + timeout ≤ s.clock)
    (hrefused : call.handle.pending = false → Refused { call with wait })
    {pending : List (ℕ × Pending)} {unresolved : List (ℕ × Unresolved)}
    (hfewer : ∀ item ∈ pending, item ∈ s.broker.pending) (hnodup : (pending.map Prod.fst).Nodup)
    (hothers : ∀ item ∈ s.broker.pending,
      call.handle.pending = false ∨ item.1 ≠ call.handle.requestId → item ∈ pending)
    (hstatus : call.handle.pending = true →
      { s with broker := { s.broker with pending, unresolved } }.Status { call with wait })
    (hunresolved : ∀ item ∈ unresolved, item ∈ s.broker.unresolved ∨
      ∃ start timeout settled, call.handle.pending = true ∧ call.handle.requestId = item.1 ∧
        call.handle.clientId = item.2.clientId ∧
        wait = .timedOut start timeout item.2.recoverClient settled ∧
        item.2.recoveryAt = settled + 22 * second ∧ s.Silent call)
    {returned : List (ℕ × Option TdObject)} (honce : (returned.map Prod.fst).Nodup)
    (hlisted : ∀ m outcome, (m, outcome) ∈ returned →
      (m, outcome) ∈ s.returned ∨ m = n ∧ wait.outcome = some outcome) :
    Sound second { s.goOn n call wait with
      broker := { s.broker with pending, unresolved }
      returned } where
  broker := h.broker.fewer hfewer h.broker.fresh
  made m hm := by
    have hne : m ≠ n := by
      rintro rfl
      rw [h.made m hm] at hcall
      cases hcall
    change update s.calls n _ m = none
    rw [update_of_ne hne]
    exact h.made m hm
  since m other hother := by
    obtain ⟨before, hbefore, -, hsince⟩ := exists_of_goOn hcall hother
    rw [← hsince]
    exact h.since m before hbefore
  late m other start timeout recoverClient hother hwait := by
    rcases goOn_cases hother with ⟨rfl, rfl⟩ | ⟨-, hother⟩
    · exact hlate start timeout recoverClient hwait
    · exact h.late m other start timeout recoverClient hother hwait
  refused m other hother hpending := by
    rcases goOn_cases hother with ⟨rfl, rfl⟩ | ⟨-, hother⟩
    · exact hrefused hpending
    · exact h.refused m other hother hpending
  below m other hother htaken := by
    obtain ⟨before, hbefore, hhandle, -⟩ := exists_of_goOn hcall hother
    rw [← hhandle] at htaken ⊢
    exact h.below m before hbefore htaken
  unique m other m' other' hother hother' htaken htaken' heq := by
    obtain ⟨before, hbefore, hhandle, -⟩ := exists_of_goOn hcall hother
    obtain ⟨before', hbefore', hhandle', -⟩ := exists_of_goOn hcall hother'
    rw [← hhandle] at htaken heq
    rw [← hhandle'] at htaken' heq
    exact h.unique m before m' before' hbefore hbefore' htaken htaken' heq
  status m other hother htaken := by
    rcases goOn_cases hother with ⟨rfl, rfl⟩ | ⟨hne, hother⟩
    · exact (hstatus htaken).congr (fun _ => Iff.rfl) rfl (fun e he => he) fun hw => hw.silent
    · refine (h.status m other hother htaken).congr ?_ rfl (fun e he => he) fun hw => hw.silent
      intro item
      refine ⟨hfewer _, fun hitem => hothers _ hitem ?_⟩
      cases hpending : call.handle.pending with
      | false => exact Or.inl rfl
      | true => exact Or.inr fun heq => hne (h.unique m other n call hother hcall htaken hpending heq)
  pending id item hitem := by
    obtain ⟨m, other, hother, htaken, hid⟩ := h.pending id item (hfewer _ hitem)
    by_cases heq : m = n
    · subst heq
      rw [hcall] at hother
      cases hother
      exact ⟨m, { call with wait }, update_self _ _ _, htaken, hid⟩
    · exact ⟨m, other, (update_of_ne heq _ _).trans hother, htaken, hid⟩
  nodup := hnodup
  async item hitem := by
    refine ⟨(h.async item hitem).1, fun m other hother htaken => ?_⟩
    obtain ⟨before, hbefore, hhandle, -⟩ := exists_of_goOn hcall hother
    rw [← hhandle] at htaken ⊢
    exact (h.async item hitem).2 m before hbefore htaken
  unresolved item hitem := by
    rcases hunresolved item hitem with
      hold | ⟨start, timeout, settled, htaken, hid, hclient, hwait, hrest⟩
    · obtain ⟨m, other, start, timeout, settled, hother, htaken, hid, hclient, hwait, hrest⟩ :=
        h.unresolved item hold
      have hne : m ≠ n := by
        rintro rfl
        rw [hcall] at hother
        cases hother
        rw [hwait] at hopen
        cases hopen
      exact ⟨m, other, start, timeout, settled, (update_of_ne hne _ _).trans hother,
        htaken, hid, hclient, hwait, hrest⟩
    · exact ⟨n, { call with wait }, start, timeout, settled, update_self _ _ _, htaken, hid,
        hclient, hwait, hrest⟩
  setOnce := h.setOnce
  mem_set := h.mem_set
  once := honce
  listed m outcome hmem := by
    rcases hlisted m outcome hmem with hold | ⟨rfl, houtcome⟩
    · obtain ⟨other, hother, houtcome⟩ := h.listed m outcome hold
      have hne : m ≠ n := by
        rintro rfl
        rw [hcall] at hother
        cases hother
        rw [Wait.outcome_eq_none.mpr hopen] at houtcome
        cases houtcome
      exact ⟨other, (update_of_ne hne _ _).trans hother, houtcome⟩
    · exact ⟨{ call with wait }, update_self _ _ _, houtcome⟩

theorem Sound.goOn (hwait : wait.isOpen = true)
    (hlate : ∀ start timeout recoverClient, wait = .late start timeout recoverClient →
      start + timeout ≤ s.clock) : Sound second (s.goOn n call wait) := by
  refine h.replace hcall hopen hlate ?_ (fun _ hitem => hitem) h.nodup (fun _ hitem _ => hitem) ?_
    (fun _ hitem => Or.inl hitem) h.once fun m outcome hmem => Or.inl hmem
  · exact fun hpending => ⟨Or.inl hwait, (h.refused n call hcall hpending).refusal⟩
  · intro htaken
    rcases h.status n call hcall htaken with hw | ⟨object, ha⟩ | hg
    · exact Or.inl ⟨hwait, hw.pending, hw.unset, hw.silent⟩
    · exact Or.inr (Or.inl ⟨object, Or.inl hwait, ha.not_pending, ha.answer, ha.source⟩)
    · obtain ⟨start, timeout, recoverClient, settled, htimedOut, -⟩ := hg.wait
      rw [htimedOut] at hopen
      cases hopen

theorem Sound.not_returned : n ∉ s.returned.map Prod.fst := by
  intro hmem
  obtain ⟨⟨m, outcome⟩, hentry, rfl⟩ := mem_map.mp hmem
  obtain ⟨other, hother, houtcome⟩ := h.listed m outcome hentry
  rw [hcall] at hother
  cases hother
  rw [Wait.outcome_eq_none.mpr hopen] at houtcome
  cases houtcome

theorem Sound.once_append (object : Option TdObject) :
    ((s.returned ++ [(n, object)]).map Prod.fst).Nodup := by
  rw [map_append, map_singleton]
  refine List.Nodup.append h.once (nodup_singleton n) ?_
  intro m hm hn
  rw [mem_singleton.mp hn] at hm
  exact h.not_returned hcall hopen hm

theorem Sound.finish {object : Option TdObject}
    (hready : s.broker.ready call.handle = some object) :
    Sound second (s.finish n call (.answered object) object) := by
  refine h.replace hcall hopen (fun _ _ _ heq => ?_) ?_ (fun _ hitem => hitem) h.nodup
    (fun _ hitem _ => hitem) ?_ (fun _ hitem => Or.inl hitem) (h.once_append hcall hopen object) ?_
  · cases heq
  · intro hpending
    rw [ready, if_neg (by simp [hpending])] at hready
    rw [← Option.some.inj hready]
    exact ⟨Or.inr rfl, (h.refused n call hcall hpending).refusal⟩
  · intro htaken
    rw [ready, if_pos htaken] at hready
    rcases h.status n call hcall htaken with hw | ⟨object', ha⟩ | hg
    · rw [hw.unset] at hready
      cases hready
    · have heq : object = some object' := Option.some.inj (hready.symm.trans ha.answer)
      subst heq
      exact Or.inr (Or.inl ⟨object', Or.inr rfl, ha.not_pending, ha.answer, ha.source⟩)
    · rw [hg.unset] at hready
      cases hready
  · intro m outcome hmem
    rcases mem_append.mp hmem with hold | hnew
    · exact Or.inl hold
    · obtain ⟨rfl, rfl⟩ := Prod.mk.inj (mem_singleton.mp hnew)
      exact Or.inr ⟨rfl, rfl⟩

end

theorem Sound.settleCall {start timeout : ℕ} {recoverClient : Bool}
    (hwait : call.wait = .late start timeout recoverClient) :
    Sound second (s.settleCall second n call start timeout recoverClient) := by
  have hopen : call.wait.isOpen = true := by
    rw [hwait]
    rfl
  unfold Callers.settleCall
  cases hready : s.broker.ready call.handle with
  | some object => exact h.finish hcall hopen hready
  | none =>
    have htaken : call.handle.pending = true := by
      by_contra hne
      rw [ready, if_neg hne] at hready
      cases hready
    rw [ready, if_pos htaken] at hready
    -- nothing was heard of it
    have hsilent : s.Silent call := by
      rcases h.status n call hcall htaken with hw | ⟨object, ha⟩ | hg
      · exact hw.silent
      · rw [ha.answer] at hready
        cases hready
      · obtain ⟨_, _, _, _, htimedOut, -⟩ := hg.wait
        rw [hwait] at htimedOut
        cases htimedOut
    refine h.replace hcall hopen (fun _ _ _ heq => ?_) (fun hpending => ?_)
      (fun _ hitem => (mem_filter.mp hitem).1) (h.nodup.sublist (filter_sublist.map _)) ?_
      (fun _ => Or.inr (Or.inr ?_)) ?_ (h.once_append hcall hopen _) ?_
    · cases heq
    · rw [htaken] at hpending
      cases hpending
    · rintro item hitem (hpending | hne)
      · rw [htaken] at hpending
        cases hpending
      · exact mem_filter.mpr ⟨hitem, by simpa using hne⟩
    · refine ⟨⟨start, timeout, recoverClient, s.clock, rfl, ?_⟩, fun item hitem => ?_, hready⟩
      · exact h.late n call start timeout recoverClient hcall hwait
      · have := (mem_filter.mp hitem).2
        simp at this
    · intro item hitem
      rcases mem_append.mp hitem with hold | hnew
      · refine Or.inl ?_
        split at hold
        · exact mem_of_mem_evictUnresolved hold
        · exact hold
      · rw [mem_singleton.mp hnew]
        exact Or.inr ⟨start, timeout, s.clock, htaken, rfl, rfl, rfl, rfl, hsilent⟩
    · intro m outcome hmem
      rcases mem_append.mp hmem with hold | hnew
      · exact Or.inl hold
      · obtain ⟨rfl, rfl⟩ := Prod.mk.inj (mem_singleton.mp hnew)
        exact Or.inr ⟨rfl, rfl⟩

end

end

theorem made_cases (h : update s.calls s.made (some call) m = some other) :
    m = s.made ∧ other = call ∨ m ≠ s.made ∧ s.calls m = some other := by
  by_cases heq : m = s.made
  · rw [heq, update_self] at h
    exact Or.inl ⟨heq, (Option.some.inj h).symm⟩
  · rw [update_of_ne heq] at h
    exact Or.inr ⟨heq, h⟩

theorem Sound.ne_made (h : Sound second s) (hother : s.calls m = some other) : m ≠ s.made := by
  rintro rfl
  rw [h.made s.made (Nat.le_refl _)] at hother
  cases hother

theorem Sound.pending_lt (h : Sound second s) {item : ℕ × Pending} (hitem : item ∈ s.broker.pending) :
    item.1 < s.broker.nextRequestId := by
  obtain ⟨n, call, hcall, htaken, hid⟩ := h.pending item.1 item.2 hitem
  rw [← hid]
  exact h.below n call hcall htaken

theorem Sound.make (h : Sound second s)
    (hsound : broker.Sound) (hnext : s.broker.nextRequestId ≤ broker.nextRequestId)
    (hanswers : broker.answers = s.broker.answers)
    (hunresolved : broker.unresolved = s.broker.unresolved)
    (hasync : broker.asyncRequests = s.broker.asyncRequests) (hsince : call.since = s.heard.length)
    (hheld : call.wait = .held)
    (hrefused : call.handle.pending = false → Refused call ∧ broker.pending = s.broker.pending)
    (htaken : call.handle.pending = true → call.handle.requestId = s.broker.nextRequestId ∧
      s.broker.nextRequestId < broker.nextRequestId ∧ ∃ item : Pending,
        item.clientId = call.handle.clientId ∧
        broker.pending = s.broker.pending ++ [(s.broker.nextRequestId, item)]) :
    Sound second { s with
      broker
      calls := update s.calls s.made (some call)
      made := s.made + 1 } := by
  -- what is there for a number that has been given out is what was there
  have hold : ∀ id item, (id, item) ∈ broker.pending ↔ (id, item) ∈ s.broker.pending ∨
      call.handle.pending = true ∧ (id, item) ∈ broker.pending ∧ id = s.broker.nextRequestId := by
    intro id item
    cases hpending : call.handle.pending with
    | false => simp [(hrefused hpending).2]
    | true =>
      obtain ⟨-, -, new, -, heq⟩ := htaken hpending
      rw [heq, mem_append, mem_singleton]
      constructor
      · rintro (hmem | hmem)
        · exact Or.inl hmem
        · exact Or.inr ⟨rfl, Or.inr hmem, (Prod.mk.inj hmem).1⟩
      · rintro (hmem | ⟨-, hmem, -⟩)
        · exact Or.inl hmem
        · exact hmem
  refine
    { broker := hsound
      made := ?_, since := ?_, late := ?_, refused := ?_, below := ?_, unique := ?_, status := ?_
      pending := ?_, nodup := ?_, async := ?_, unresolved := ?_
      setOnce := h.setOnce
      mem_set := fun id => (h.mem_set id).trans (by rw [← hanswers])
      once := h.once
      listed := ?_ }
  · intro m hm
    change update s.calls s.made (some call) m = none
    rw [update_of_ne (Nat.ne_of_gt hm)]
    exact h.made m (Nat.le_of_succ_le hm)
  · intro m other hother
    rcases made_cases hother with ⟨-, rfl⟩ | ⟨-, hother⟩
    · exact Nat.le_of_eq hsince
    · exact h.since m other hother
  · intro m other start timeout recoverClient hother hwait
    rcases made_cases hother with ⟨-, rfl⟩ | ⟨-, hother⟩
    · rw [hheld] at hwait
      cases hwait
    · exact h.late m other start timeout recoverClient hother hwait
  · intro m other hother hpending
    rcases made_cases hother with ⟨-, rfl⟩ | ⟨-, hother⟩
    · exact (hrefused hpending).1
    · exact h.refused m other hother hpending
  · intro m other hother hpending
    rcases made_cases hother with ⟨-, rfl⟩ | ⟨-, hother⟩
    · obtain ⟨hid, hlt, -⟩ := htaken hpending
      rw [hid]
      exact hlt
    · exact Nat.lt_of_lt_of_le (h.below m other hother hpending) hnext
  · intro m other m' other' hother hother' hpending hpending' heq
    rcases made_cases hother with ⟨rfl, rfl⟩ | ⟨-, hbefore⟩
    · rcases made_cases hother' with ⟨rfl, -⟩ | ⟨-, hbefore'⟩
      · rfl
      · have hlt := h.below m' other' hbefore' hpending'
        rw [← heq, (htaken hpending).1] at hlt
        exact absurd hlt (Nat.lt_irrefl _)
    · rcases made_cases hother' with ⟨rfl, rfl⟩ | ⟨-, hbefore'⟩
      · have hlt := h.below m other hbefore hpending
        rw [heq, (htaken hpending').1] at hlt
        exact absurd hlt (Nat.lt_irrefl _)
      · exact h.unique m other m' other' hbefore hbefore' hpending hpending' heq
  · intro m other hother hpending
    rcases made_cases hother with ⟨-, rfl⟩ | ⟨-, hother⟩
    · obtain ⟨hid, -, item, hclient, heq⟩ := htaken hpending
      refine Or.inl ⟨by rw [hheld]; rfl, ⟨item, ?_, hclient⟩, ?_, fun object hresponse => ?_⟩
      · rw [heq, hid]
        exact mem_append_right _ (mem_singleton_self _)
      · rw [hanswers, hid]
        exact h.broker.fresh _ (Nat.le_refl _)
      · -- nothing has been heard since
        unfold Response at hresponse
        rw [hsince, drop_length] at hresponse
        cases hresponse
    · refine (h.status m other hother hpending).congr (fun item => ?_) (congrFun hanswers _)
        (fun e he => he) fun hw => hw.silent
      refine (hold _ item).trans ⟨?_, Or.inl⟩
      rintro (hmem | ⟨-, -, heq⟩)
      · exact hmem
      · exact absurd heq (Nat.ne_of_lt (h.below m other hother hpending))
  · intro id item hitem
    rcases (hold id item).mp hitem with hmem | ⟨hpending, -, rfl⟩
    · obtain ⟨m, other, hother, hpending, hid⟩ := h.pending id item hmem
      exact ⟨m, other, (update_of_ne (h.ne_made hother) _ _).trans hother, hpending, hid⟩
    · exact ⟨s.made, call, update_self _ _ _, hpending, (htaken hpending).1⟩
  · cases hpending : call.handle.pending with
    | false =>
      rw [(hrefused hpending).2]
      exact h.nodup
    | true =>
      obtain ⟨-, -, item, -, heq⟩ := htaken hpending
      rw [heq, map_append, map_singleton]
      refine List.Nodup.append h.nodup (nodup_singleton _) fun id hid hid' => ?_
      obtain ⟨other, hother, rfl⟩ := mem_map.mp hid
      exact absurd (mem_singleton.mp hid') (Nat.ne_of_lt (h.pending_lt hother))
  · intro item hitem
    rw [hasync] at hitem
    obtain ⟨hlt, hne⟩ := h.async item hitem
    refine ⟨Nat.lt_of_lt_of_le hlt hnext, fun m other hother hpending => ?_⟩
    rcases made_cases hother with ⟨-, rfl⟩ | ⟨-, hother⟩
    · rw [(htaken hpending).1]
      exact Nat.ne_of_gt hlt
    · exact hne m other hother hpending
  · intro item hitem
    rw [hunresolved] at hitem
    obtain ⟨m, other, start, timeout, settled, hother, hrest⟩ := h.unresolved item hitem
    exact ⟨m, other, start, timeout, settled,
      (update_of_ne (h.ne_made hother) _ _).trans hother, hrest⟩
  · intro m outcome hmem
    obtain ⟨other, hother, houtcome⟩ := h.listed m outcome hmem
    exact ⟨other, (update_of_ne (h.ne_made hother) _ _).trans hother, houtcome⟩

theorem Sound.beginCall (h : Sound second s) (clientId : ℤ) (function : TdFunction) (throws : Bool) :
    Sound second (s.beginCall clientId function throws) := by
  have hsound : (s.broker.beginRequest clientId function throws).1.Sound := h.broker.begin
  unfold Callers.beginCall
  unfold beginRequest at hsound ⊢
  split at hsound
  · rename_i hfull
    rw [if_pos hfull]
    refine h.make hsound (Nat.le_refl _) rfl rfl rfl rfl rfl (fun _ => ⟨⟨Or.inl rfl, ?_⟩, rfl⟩) nofun
    rcases hfull with hstopping | hload
    · exact Or.inl ⟨by simp [refusal, hstopping], hstopping⟩
    · cases hstopping : s.broker.stopping with
      | true => exact Or.inl ⟨by simp [refusal, hstopping], rfl⟩
      | false => exact Or.inr ⟨by simp [refusal, hstopping], hload⟩
  · rename_i hfull
    rw [if_neg hfull]
    cases throws with
    | true =>
      exact h.ofBroker hsound rfl rfl (Nat.le_succ _) (fun _ hitem => hitem) fun _ hitem => Or.inl hitem
    | false =>
      refine h.make hsound (Nat.le_succ _) rfl rfl rfl rfl rfl nofun fun _ => ?_
      exact ⟨rfl, Nat.lt_succ_self _, _, rfl, rfl⟩

variable {set : List ℕ}

theorem Sound.hear (h : Sound second s) {e : Heard}
    (hsound : broker.Sound) (hnext : broker.nextRequestId = s.broker.nextRequestId)
    (hfewer : broker.pending.Sublist s.broker.pending)
    (hasync : ∀ item ∈ broker.asyncRequests, item ∈ s.broker.asyncRequests)
    (hstatus : ∀ n call, s.calls n = some call → call.handle.pending = true →
      { s with broker, heard := s.heard ++ [e], set }.Status call)
    (hunresolved : ∀ item ∈ broker.unresolved, item ∈ s.broker.unresolved ∧
      ∀ n call, s.calls n = some call → call.handle.pending = true →
        call.handle.requestId = item.1 → call.handle.clientId = item.2.clientId →
        ∀ object, e ≠ .response call.handle.clientId call.handle.requestId object)
    (hset : set.Nodup) (hmem : ∀ id, id ∈ set ↔ broker.answers id ≠ none) :
    Sound second { s with broker, heard := s.heard ++ [e], set } where
  broker := hsound
  made := h.made
  since n call hcall := by
    rw [length_append]
    exact Nat.le_add_right_of_le (h.since n call hcall)
  late := h.late
  refused := h.refused
  below n call hcall htaken := Nat.lt_of_lt_of_eq (h.below n call hcall htaken) hnext.symm
  unique := h.unique
  status := hstatus
  pending id item hitem := h.pending id item (hfewer.subset hitem)
  nodup := h.nodup.sublist (hfewer.map _)
  async item hitem := by
    obtain ⟨hlt, hne⟩ := h.async item (hasync item hitem)
    exact ⟨Nat.lt_of_lt_of_eq hlt hnext.symm, hne⟩
  unresolved item hitem := by
    obtain ⟨hold, hother⟩ := hunresolved item hitem
    obtain ⟨n, call, start, timeout, settled, hcall, htaken, hid, hclient, hwait, hat, hsilent⟩ :=
      h.unresolved item hold
    refine ⟨n, call, start, timeout, settled, hcall, htaken, hid, hclient, hwait, hat, ?_⟩
    intro object hresponse
    rcases (mem_heard (h.since n call hcall)).mp hresponse with hbefore | hnow
    · exact hsilent object hbefore
    · exact hother n call hcall htaken hid hclient object hnow.symm
  setOnce := hset
  mem_set := hmem
  once := h.once
  listed := h.listed

theorem Sound.mem_heard_append (h : Sound second s) (hcall : s.calls n = some call) (e : Heard) :
    ∀ e' ∈ s.heard.drop call.since, e' ∈ (s.heard ++ [e]).drop call.since :=
  fun _ he' => (mem_heard (h.since n call hcall)).mpr (Or.inl he')

variable {object : TdObject} {requestId : ℕ}

theorem Sound.silent_append (h : Sound second s)
    (hcall : s.calls n = some call) (hsilent : s.Silent call) {clientId : ℤ}
    (hne : call.handle.requestId ≠ requestId ∨ call.handle.clientId ≠ clientId)
    :
    { s with broker, heard := s.heard ++ [Heard.response clientId requestId object], set }.Silent call := by
  intro object' hresponse
  rcases (mem_heard (h.since n call hcall)).mp hresponse with hbefore | hnow
  · exact hsilent object' hbefore
  · injection hnow with hclient hid
    exact hne.elim (fun hne => hne hid) fun hne => hne hclient

theorem Sound.status_append (h : Sound second s) {clientId : ℤ}
    (hcall : s.calls n = some call) (htaken : call.handle.pending = true)
    (hpending : ∀ item, (call.handle.requestId, item) ∈ broker.pending ↔
      (call.handle.requestId, item) ∈ s.broker.pending)
    (hanswers : broker.answers call.handle.requestId = s.broker.answers call.handle.requestId)
    (hne : ∀ item, (requestId, item) ∈ s.broker.pending → call.handle.requestId = requestId →
      call.handle.clientId ≠ clientId) :
    { s with broker, heard := s.heard ++ [Heard.response clientId requestId object], set }.Status
      call := by
  refine (h.status n call hcall htaken).congr hpending hanswers (h.mem_heard_append hcall _)
    fun hw => h.silent_append hcall hw.silent ?_
  obtain ⟨item, hitem, -⟩ := hw.pending
  by_cases heq : call.handle.requestId = requestId
  · exact Or.inr (hne item (heq ▸ hitem) heq)
  · exact Or.inl heq

theorem Sound.unresolved_not_pending (h : Sound second s) {item : ℕ × Unresolved}
    (hitem : item ∈ s.broker.unresolved) (other : Pending) : (item.1, other) ∉ s.broker.pending := by
  intro hother
  obtain ⟨n, call, start, timeout, settled, hcall, htaken, hid, -, hwait, -⟩ := h.unresolved item hitem
  rw [← hid] at hother
  have hopen := ((h.status n call hcall htaken).waiting hother).isOpen
  rw [hwait] at hopen
  cases hopen

theorem Sound.complete (h : Sound second s) (clientId : ℤ) (requestId : ℕ) (object : TdObject) :
    Sound second { s with
      broker := s.broker.complete requestId clientId object
      heard := s.heard ++ [.response clientId requestId object]
      set := s.set ++ s.broker.completed requestId clientId } := by
  have hsound : (s.broker.complete requestId clientId object).Sound := h.broker.complete
  rcases complete_cases s.broker requestId clientId object with
    ⟨⟨item, hitem, rfl⟩, hset, asyncRequests, hfewer, heq⟩ | ⟨item, hitem, hclient, hset, heq⟩ |
    ⟨item, hitem, hclient, hset, heq⟩ | ⟨hnone, hset, heq⟩
  all_goals rw [heq] at hsound ⊢; rw [hset]
  · -- the request of the broker itself is no call's
    have hasked := (h.async item hitem).2
    rw [append_nil]
    refine h.hear hsound rfl (List.Sublist.refl _) hfewer ?_ ?_ h.setOnce h.mem_set
    · intro n call hcall htaken
      exact h.status_append hcall htaken (fun _ => Iff.rfl) rfl fun _ _ heq =>
        absurd heq (hasked n call hcall htaken)
    · refine fun other hother => ⟨hother, fun n call hcall htaken hid hclient object' hnow => ?_⟩
      injection hnow with _ hid'
      exact hasked n call hcall htaken hid'.symm
  · -- the promise is set
    have hunset : s.broker.answers requestId = none := by
      obtain ⟨n, call, hcall, htaken, rfl⟩ := h.pending requestId item hitem
      exact ((h.status n call hcall htaken).waiting hitem).unset
    refine h.hear hsound rfl filter_sublist (fun _ hother => hother) ?_ ?_ ?_ ?_
    · intro n call hcall htaken
      by_cases hid : call.handle.requestId = requestId
      · subst hid
        have hw := (h.status n call hcall htaken).waiting hitem
        refine Or.inr (Or.inl ⟨object, Or.inl hw.isOpen, fun other hother => ?_, ?_, Or.inl ?_⟩)
        · simpa using (mem_filter.mp hother).2
        · exact update_self _ _ _
        · refine (mem_heard (h.since n call hcall)).mpr (Or.inr ?_)
          rw [← h.client_of_pending hcall htaken hitem, hclient]
      · refine h.status_append hcall htaken (fun other => ?_) (update_of_ne hid _ _)
          fun _ _ heq => absurd heq hid
        simp [hid]
    · refine fun other hother => ⟨hother, fun n call hcall htaken hid _ object' hnow => ?_⟩
      injection hnow with _ hid'
      rw [hid', hid] at hitem
      exact h.unresolved_not_pending hother item hitem
    · refine List.Nodup.append h.setOnce (nodup_singleton _) fun id hid hid' => ?_
      rw [mem_singleton.mp hid'] at hid
      exact (h.mem_set requestId).mp hid hunset
    · intro id
      rw [mem_append, mem_singleton]
      change _ ↔ update s.broker.answers requestId (some (some object)) id ≠ none
      by_cases hid : id = requestId
      · subst hid
        simp
      · rw [update_of_ne hid]
        simp [hid, h.mem_set]
  · -- another client has the request
    rw [append_nil]
    refine h.hear hsound rfl (List.Sublist.refl _) (fun _ hother => hother) ?_ ?_ h.setOnce h.mem_set
    · intro n call hcall htaken
      refine h.status_append hcall htaken (fun _ => Iff.rfl) rfl fun _ _ heq => ?_
      subst heq
      rw [← h.client_of_pending hcall htaken hitem]
      exact hclient
    · refine fun other hother => ⟨hother, fun n call hcall htaken hid _ object' hnow => ?_⟩
      injection hnow with _ hid'
      rw [hid', hid] at hitem
      exact h.unresolved_not_pending hother item hitem
  · -- nobody waits
    rw [append_nil]
    refine h.hear hsound rfl (List.Sublist.refl _) (fun _ hother => hother) ?_ ?_ h.setOnce h.mem_set
    · intro n call hcall htaken
      exact h.status_append hcall htaken (fun _ => Iff.rfl) rfl fun item hitem =>
        absurd hitem (hnone item)
    · intro other hother
      obtain ⟨hold, hne⟩ := mem_filter.mp hother
      refine ⟨hold, fun n call hcall htaken hid hclient object' hnow => ?_⟩
      injection hnow with hclient' hid'
      simp [hclient', hid', hid, hclient] at hne

theorem answers_stop (broker : TdRequestBroker) (id : ℕ) :
    (∃ item, (id, item) ∈ broker.pending) ∧
        broker.stop.answers id = some (some (.error 503 "service.stopping")) ∨
      (∀ item, (id, item) ∉ broker.pending) ∧ broker.stop.answers id = broker.answers id := by
  unfold TdRequestBroker.stop
  dsimp only
  split
  · rename_i hany
    obtain ⟨⟨other, item⟩, hitem, hid⟩ := any_eq_true.mp hany
    obtain rfl : other = id := of_decide_eq_true hid
    exact Or.inl ⟨⟨item, hitem⟩, rfl⟩
  · rename_i hany
    refine Or.inr ⟨fun item hitem => hany ?_, rfl⟩
    exact any_eq_true.mpr ⟨(id, item), hitem, decide_eq_true rfl⟩

theorem Sound.stop (h : Sound second s) : Sound second { s with
    broker := s.broker.stop
    heard := s.heard ++ [.stopped]
    set := s.set ++ s.broker.pending.map Prod.fst } := by
  have hmem : ∀ id, id ∈ s.broker.pending.map Prod.fst ↔ ∃ item, (id, item) ∈ s.broker.pending := by
    simp
  have hunset : ∀ id item, (id, item) ∈ s.broker.pending → s.broker.answers id = none := by
    intro id item hitem
    obtain ⟨n, call, hcall, htaken, rfl⟩ := h.pending id item hitem
    exact ((h.status n call hcall htaken).waiting hitem).unset
  refine h.hear h.broker.stop rfl (nil_sublist _) (fun _ => nofun) ?_ (fun _ => nofun) ?_ ?_
  · intro n call hcall htaken
    have hkept := h.mem_heard_append hcall .stopped
    rcases h.status n call hcall htaken with hw | ⟨object, ha⟩ | hg
    · -- who waits is told
      obtain ⟨item, hitem, -⟩ := hw.pending
      refine Or.inr (Or.inl ⟨_, Or.inl hw.isOpen, nofun, ?_, Or.inr ⟨rfl, ?_⟩⟩)
      · rcases answers_stop s.broker call.handle.requestId with ⟨-, hanswer⟩ | ⟨hnone, -⟩
        · exact hanswer
        · exact absurd hitem (hnone item)
      · exact (mem_heard (h.since n call hcall)).mpr (Or.inr rfl)
    · refine Or.inr (Or.inl ⟨object, ha.wait, nofun, ?_, ?_⟩)
      · rcases answers_stop s.broker call.handle.requestId with ⟨⟨item, hitem⟩, -⟩ | ⟨-, hsame⟩
        · exact absurd hitem (ha.not_pending item)
        · exact hsame.trans ha.answer
      · exact ha.source.imp (hkept _) fun hstop => ⟨hstop.1, hkept _ hstop.2⟩
    · refine Or.inr (Or.inr ⟨hg.wait, nofun, ?_⟩)
      rcases answers_stop s.broker call.handle.requestId with ⟨⟨item, hitem⟩, -⟩ | ⟨-, hsame⟩
      · exact absurd hitem (hg.not_pending item)
      · exact hsame.trans hg.unset
  · refine List.Nodup.append h.setOnce h.nodup fun id hset hpending => ?_
    obtain ⟨item, hitem⟩ := (hmem id).mp hpending
    exact (h.mem_set id).mp hset (hunset id item hitem)
  · intro id
    rw [mem_append, h.mem_set, hmem]
    rcases answers_stop s.broker id with ⟨hpending, hanswer⟩ | ⟨hnone, hsame⟩
    · rw [hanswer]
      exact iff_of_true (Or.inr hpending) (by simp)
    · rw [hsame]
      constructor
      · rintro (hne | ⟨item, hitem⟩)
        · exact hne
        · exact absurd hitem (hnone item)
      · exact Or.inl

end Steps

section Bounds

structure Bounded (broker : TdRequestBroker) : Prop where
  load : broker.load ≤ requestLimit
  unresolved : broker.unresolved.length ≤ requestLimit

variable {broker : TdRequestBroker}

theorem foldl_choose_mem {α : Type} (worse : α → α → Bool) (first : α) (rest : List α) :
    rest.foldl (fun victim item => if worse victim item then item else victim) first ∈
      first :: rest := by
  induction rest generalizing first with
  | nil => exact mem_singleton_self first
  | cons item rest ih =>
    rw [foldl_cons]
    cases worse first item with
    | true => exact mem_cons_of_mem _ (ih item)
    | false =>
      rcases mem_cons.mp (ih first) with heq | hmem
      · exact mem_cons.mpr (Or.inl heq)
      · exact mem_cons_of_mem _ (mem_cons_of_mem _ hmem)

theorem length_evictUnresolved_lt {unresolved : List (ℕ × Unresolved)} (h : unresolved ≠ []) :
    (evictUnresolved unresolved).length < unresolved.length := by
  cases unresolved with
  | nil => exact absurd rfl h
  | cons first rest =>
    have hmem := foldl_choose_mem (fun victim item : ℕ × Unresolved =>
      (victim.2.recoverClient && !item.2.recoverClient) ||
        (victim.2.recoverClient = item.2.recoverClient && item.2.recoveryAt < victim.2.recoveryAt))
      first rest
    apply length_filter_lt_length_iff_exists.mpr
    exact ⟨_, hmem, by simp⟩

section

variable (h : Bounded broker)
include h

theorem Bounded.beginRequest (clientId : ℤ) (function : TdFunction)
    (throws : Bool) : Bounded (broker.beginRequest clientId function throws).1 := by
  unfold TdRequestBroker.beginRequest
  split
  · exact h
  · rename_i hfull
    cases throws with
    | true => exact ⟨h.load, h.unresolved⟩
    | false =>
      refine ⟨?_, h.unresolved⟩
      change (broker.pending ++ [_]).length + broker.asyncRequests.length ≤ requestLimit
      rw [length_append, length_singleton]
      omega

theorem Bounded.requestIdentity (clientId : ℤ) (deadline : ℕ)
    (throws : Bool) : Bounded (broker.requestIdentity clientId deadline throws) := by
  unfold TdRequestBroker.requestIdentity
  split
  · exact h
  · rename_i hfull
    cases throws with
    | true => exact ⟨h.load, h.unresolved⟩
    | false =>
      refine ⟨?_, h.unresolved⟩
      change broker.pending.length + (broker.asyncRequests ++ [_]).length ≤ requestLimit
      rw [length_append, length_singleton]
      omega

theorem Bounded.timeOut (handle : RequestHandle) (recoveryAt : ℕ)
    (recoverClient : Bool) : Bounded (broker.timeOut handle recoveryAt recoverClient) := by
  refine ⟨Nat.le_trans (Nat.add_le_add_right (length_filter_le _ _) _) h.load, ?_⟩
  unfold TdRequestBroker.timeOut
  rw [length_append, length_singleton]
  have hbound := h.unresolved
  split
  · rename_i hfull
    have hne : broker.unresolved ≠ [] := fun hnil => by
      rw [hnil] at hfull
      exact absurd hfull (by decide)
    have hlt := length_evictUnresolved_lt hne
    omega
  · omega

theorem Bounded.complete (clientId : ℤ) (requestId : ℕ) (object : TdObject) :
    Bounded (broker.complete requestId clientId object) := by
  unfold TdRequestBroker.complete
  split
  · split
    · exact h
    · refine ⟨Nat.le_trans (Nat.add_le_add_left ?_ _) h.load, h.unresolved⟩
      exact length_filter_le _ _
  · split
    · split
      · refine ⟨Nat.le_trans (Nat.add_le_add_right ?_ _) h.load, h.unresolved⟩
        exact length_filter_le _ _
      · exact h
    · exact ⟨h.load, Nat.le_trans (length_filter_le _ _) h.unresolved⟩

theorem Bounded.expire (now : ℕ) : Bounded (broker.expire now) where
  load := Nat.le_trans (Nat.add_le_add_left (length_filter_le _ _) _) h.load
  unresolved := Nat.le_trans (length_filter_le _ _) h.unresolved

end

theorem Bounded.stop : Bounded broker.stop := ⟨Nat.zero_le _, Nat.zero_le _⟩

end Bounds

section Runs

variable {second : ℕ} {s : Callers}

theorem Sound.identity (h : Sound second s) (clientId : ℤ) (deadline : ℕ) (throws : Bool) :
    Sound second { s with broker := s.broker.requestIdentity clientId deadline throws } := by
  unfold TdRequestBroker.requestIdentity
  split
  · exact h
  · cases throws with
    | true =>
      exact h.ofBroker h.broker.skip rfl rfl (Nat.le_succ _) (fun _ hitem => hitem)
        fun _ hitem => Or.inl hitem
    | false =>
      refine h.ofBroker ?_ rfl rfl (Nat.le_succ _) (fun _ hitem => hitem) fun item hitem => ?_
      · exact h.broker.hand.fewer (fun _ hitem => hitem) h.broker.hand.fresh
      · rcases mem_append.mp hitem with hold | hnew
        · exact Or.inl hold
        · rw [mem_singleton.mp hnew]
          exact Or.inr ⟨Nat.le_refl _, Nat.lt_succ_self _⟩

theorem Sound.step (h : Sound second s) (event : CallersEvent) :
    Sound second (s.step second event) := by
  cases event with
  | begin clientId function throws => exact h.beginCall clientId function throws
  | await n timeout recoverClient =>
    dsimp only [Callers.step]
    split
    · rename_i call hcall
      split
      · rename_i hheld
        refine h.goOn hcall (by rw [hheld]; rfl) rfl fun _ _ _ heq => ?_
        cases heq
      · exact h
    · exact h
  | wake n =>
    dsimp only [Callers.step]
    split
    · rename_i call hcall
      split
      · rename_i hwait hready
        exact h.finish hcall (by rw [hwait]; rfl) hready
      · exact h
    · exact h
  | lapse n =>
    dsimp only [Callers.step]
    split
    · rename_i call hcall
      split
      · rename_i start timeout recoverClient hwait
        split
        · rename_i hover
          refine h.goOn hcall (by rw [hwait]; rfl) rfl fun _ _ _ heq => ?_
          injection heq with hstart htimeout
          rw [← hstart, ← htimeout]
          exact hover.1
        · exact h
      · exact h
    · exact h
  | settle n =>
    dsimp only [Callers.step]
    split
    · rename_i call hcall
      split
      · rename_i start timeout recoverClient hwait
        exact h.settleCall hcall hwait
      · exact h
    · exact h
  | complete clientId requestId object => exact h.complete clientId requestId object
  | identity clientId throws => exact h.identity clientId _ throws
  | skip =>
    exact h.ofBroker h.broker.skip rfl rfl (Nat.le_succ _) (fun _ hitem => hitem)
      fun _ hitem => Or.inl hitem
  | expire now =>
    dsimp only [Callers.step]
    split
    · refine h.ofBroker h.broker.expire rfl rfl (Nat.le_refl _) ?_ fun item hitem => Or.inl ?_
      · exact fun item hitem => (mem_filter.mp hitem).1
      · exact (mem_filter.mp hitem).1
    · exact h
  | start =>
    exact h.ofBroker h.broker.start rfl rfl (Nat.le_refl _) (fun _ hitem => hitem)
      fun _ hitem => Or.inl hitem
  | stop => exact h.stop
  | tick ticks =>
    refine
      { h with
        late := fun n call start timeout recoverClient hcall hwait => ?_
        status := fun n call hcall htaken => ?_ }
    · exact Nat.le_add_right_of_le (h.late n call start timeout recoverClient hcall hwait)
    · exact (h.status n call hcall htaken).congr (fun _ => Iff.rfl) rfl (fun e he => he)
        fun hw => hw.silent

theorem bounded_step (h : Bounded s.broker) (event : CallersEvent) :
    Bounded (s.step second event).broker := by
  cases event with
  | begin clientId function throws =>
    have hbroker : (s.beginCall clientId function throws).broker =
        (s.broker.beginRequest clientId function throws).1 := by
      unfold Callers.beginCall
      split
      · rename_i heq
        rw [heq]
      · rename_i heq
        rw [heq]
    change Bounded (s.beginCall clientId function throws).broker
    rw [hbroker]
    exact h.beginRequest clientId function throws
  | await n timeout recoverClient | wake n =>
    dsimp only [Callers.step]
    split
    · split <;> exact h
    · exact h
  | lapse n =>
    dsimp only [Callers.step]
    split
    · split
      · split <;> exact h
      · exact h
    · exact h
  | settle n =>
    dsimp only [Callers.step]
    split
    · split
      · unfold Callers.settleCall
        split
        · exact h
        · exact h.timeOut _ _ _
      · exact h
    · exact h
  | complete clientId requestId object => exact h.complete clientId requestId object
  | identity clientId throws => exact h.requestIdentity clientId _ throws
  | skip => exact ⟨h.load, h.unresolved⟩
  | expire now =>
    dsimp only [Callers.step]
    split
    · exact h.expire now
    · exact h
  | start => exact ⟨h.load, h.unresolved⟩
  | stop => exact Bounded.stop
  | tick ticks => exact h

theorem sound_init (second : ℕ) : Sound second {} where
  broker :=
    { below := fun _ => nofun
      unique := fun _ => nofun
      pending := fun _ _ => nofun
      fresh := fun _ _ => rfl }
  made _ _ := rfl
  since _ _ := nofun
  late _ _ _ _ _ := nofun
  refused _ _ := nofun
  below _ _ := nofun
  unique _ _ _ _ := nofun
  status _ _ := nofun
  pending _ _ := nofun
  nodup := nodup_nil
  async _ := nofun
  unresolved _ := nofun
  setOnce := nodup_nil
  mem_set _ := by simp
  once := nodup_nil
  listed _ _ := nofun

theorem sound_of_run (second : ℕ) (events : List CallersEvent) :
    Sound second (events.foldl (Callers.step second) {}) ∧
      Bounded (events.foldl (Callers.step second) {}).broker := by
  induction events using List.reverseRecOn with
  | nil => exact ⟨sound_init second, Nat.zero_le _, Nat.zero_le _⟩
  | append_singleton events event ih =>
    rw [foldl_append]
    exact ⟨ih.1.step event, bounded_step ih.2 event⟩

theorem exists_of_mem_stalled {broker : TdRequestBroker} {now : ℕ} {clientId : ℤ}
    (h : clientId ∈ broker.stalled now) : ∃ item ∈ broker.unresolved,
      item.2.recoveryAt ≤ now ∧ item.2.recoverClient = true ∧ item.2.clientId = clientId := by
  have hfold : ∀ (items : List (ℕ × Unresolved)) (before : List ℤ),
      clientId ∈ items.foldl (fun stalled item =>
        if item.2.recoveryAt ≤ now ∧ item.2.recoverClient ∧ item.2.clientId ∉ stalled then
          stalled ++ [item.2.clientId]
        else stalled) before →
      clientId ∈ before ∨ ∃ item ∈ items,
        item.2.recoveryAt ≤ now ∧ item.2.recoverClient = true ∧ item.2.clientId = clientId := by
    intro items
    induction items with
    | nil => exact fun before hmem => Or.inl hmem
    | cons item items ih =>
      intro before hmem
      rw [foldl_cons] at hmem
      rcases ih _ hmem with hnow | ⟨other, hother, hdue⟩
      · split at hnow
        · rename_i hdue
          rcases mem_append.mp hnow with hold | hnew
          · exact Or.inl hold
          · exact Or.inr ⟨item, mem_cons_self, hdue.1, hdue.2.1, (mem_singleton.mp hnew).symm⟩
        · exact Or.inl hnow
      · exact Or.inr ⟨other, mem_cons_of_mem _ hother, hdue⟩
  rcases hfold broker.unresolved [] h with hnil | hitem
  · cases hnil
  · exact hitem

variable {call : BrokerCall} {n : ℕ}

theorem Sound.justified (h : Sound second s)
    (hcall : s.calls n = some call) {outcome : Option TdObject} (houtcome : call.wait.outcome = some outcome) :
    s.Justified call outcome := by
  have hclosed : call.wait.isOpen ≠ true := fun hopen => by
    rw [Wait.outcome_eq_none.mpr hopen] at houtcome
    cases houtcome
  cases hpending : call.handle.pending with
  | false =>
    obtain ⟨hwait, hrefusal⟩ := h.refused n call hcall hpending
    rw [hwait.resolve_left hclosed] at houtcome
    obtain rfl := Option.some.inj houtcome
    rcases hrefusal with ⟨heq, hstopping⟩ | ⟨heq, hload⟩
    · exact Or.inr (Or.inr (Or.inr ⟨heq, Or.inl ⟨hpending, hstopping⟩⟩))
    · exact Or.inr (Or.inr (Or.inl ⟨heq, hload⟩))
  | true =>
    rcases h.status n call hcall hpending with hw | ⟨object, ha⟩ | hg
    · exact absurd hw.isOpen hclosed
    · rw [ha.wait.resolve_left hclosed] at houtcome
      obtain rfl := Option.some.inj houtcome
      rcases ha.source with hresponse | ⟨rfl, hstopped⟩
      · exact Or.inl ⟨object, rfl, hpending, hresponse⟩
      · exact Or.inr (Or.inr (Or.inr ⟨rfl, Or.inr hstopped⟩))
    · obtain ⟨start, timeout, recoverClient, settled, hwait, hover⟩ := hg.wait
      rw [hwait] at houtcome
      obtain rfl := Option.some.inj houtcome
      exact Or.inr (Or.inl ⟨rfl, start, timeout, recoverClient, settled, hwait, hover⟩)

theorem mem_returned_step {entry : ℕ × Option TdObject} (h : entry ∈ s.returned)
    (event : CallersEvent) : entry ∈ (s.step second event).returned := by
  have hfinish : ∀ {s : Callers} (n : ℕ) (call : BrokerCall) (wait : Wait) (object : Option TdObject),
      entry ∈ s.returned → entry ∈ (s.finish n call wait object).returned :=
    fun _ _ _ _ h => mem_append_left _ h
  cases event with
  | begin clientId function throws =>
    change entry ∈ (s.beginCall clientId function throws).returned
    unfold Callers.beginCall
    split <;> exact h
  | await n timeout recoverClient =>
    dsimp only [Callers.step]
    split
    · split <;> exact h
    · exact h
  | wake n =>
    dsimp only [Callers.step]
    split
    · split
      · exact hfinish _ _ _ _ h
      · exact h
    · exact h
  | lapse n =>
    dsimp only [Callers.step]
    split
    · split
      · split <;> exact h
      · exact h
    · exact h
  | settle n =>
    dsimp only [Callers.step]
    split
    · split
      · unfold Callers.settleCall
        split
        · exact hfinish _ _ _ _ h
        · exact hfinish _ _ _ _ h
      · exact h
    · exact h
  | expire now =>
    dsimp only [Callers.step]
    split <;> exact h
  | _ => exact h

variable {recoverClient : Bool}

theorem settle_returns (hcall : s.calls n = some call) {start timeout : ℕ}
    (hwait : call.wait = .late start timeout recoverClient) :
    ∃ outcome, (n, outcome) ∈ (s.step second (.settle n)).returned := by
  have hstep : s.step second (.settle n) = s.settleCall second n call start timeout recoverClient := by
    simp only [Callers.step, hcall, hwait]
  rw [hstep]
  unfold Callers.settleCall
  split
  · exact ⟨_, mem_append_right _ (mem_singleton_self _)⟩
  · exact ⟨_, mem_append_right _ (mem_singleton_self _)⟩

theorem wait_ends (second : ℕ) (hcall : s.calls n = some call)
    (hawaited : call.wait ≠ .held) (hopen : call.wait.isOpen = true) :
    ∃ ticks outcome, (n, outcome) ∈
      ([CallersEvent.wake n, .tick ticks, .lapse n, .settle n].foldl (Callers.step second)
        s).returned := by
  cases hwait : call.wait with
  | held => exact absurd hwait hawaited
  | answered object | timedOut start timeout recoverClient settled =>
    rw [hwait] at hopen
    cases hopen
  | late start timeout recoverClient =>
    have hwake : s.step second (.wake n) = s := by
      simp only [Callers.step, hcall, hwait]
    have hlapse : (s.step second (.tick 0)).step second (.lapse n) = s.step second (.tick 0) := by
      simp only [Callers.step, hcall, hwait]
    refine ⟨0, ?_⟩
    simp only [foldl_cons, foldl_nil, hwake, hlapse]
    exact settle_returns hcall hwait
  | waiting start timeout recoverClient =>
    cases hready : s.broker.ready call.handle with
    | some object =>
      refine ⟨0, object, ?_⟩
      have hwake : (n, object) ∈ (s.step second (.wake n)).returned := by
        simp only [Callers.step, hcall, hwait, hready]
        exact mem_append_right _ (mem_singleton_self _)
      simp only [foldl_cons, foldl_nil]
      apply mem_returned_step
      apply mem_returned_step
      apply mem_returned_step
      exact hwake
    | none =>
      have hwake : s.step second (.wake n) = s := by
        simp only [Callers.step, hcall, hwait, hready]
      have hlapse : (s.step second (.tick (start + timeout))).step second (.lapse n) =
          (s.step second (.tick (start + timeout))).goOn n call (.late start timeout recoverClient) := by
        have hover : start + timeout ≤ s.clock + (start + timeout) := Nat.le_add_left _ _
        simp only [Callers.step, hcall, hwait, hready, hover, and_self, if_true]
      refine ⟨start + timeout, ?_⟩
      simp only [foldl_cons, foldl_nil, hwake, hlapse]
      exact settle_returns (update_self _ _ _) rfl

theorem Sound.not_pending_of_timedOut (h : Sound second s)
    (hcall : s.calls n = some call) {start timeout : ℕ} {settled : ℕ}
    (hwait : call.wait = .timedOut start timeout recoverClient settled) (item : Pending) :
    (call.handle.requestId, item) ∉ s.broker.pending := by
  cases hpending : call.handle.pending with
  | false =>
    rcases (h.refused n call hcall hpending).wait with hopen | hanswered
    · rw [hwait] at hopen
      cases hopen
    · rw [hwait] at hanswered
      cases hanswered
  | true =>
    intro hitem
    have hopen := ((h.status n call hcall hpending).waiting hitem).isOpen
    rw [hwait] at hopen
    cases hopen

/-- **Every run of the broker and its callers.** -/
theorem kept_of_run (second : ℕ) (events : List CallersEvent) :
    Kept second (events.foldl (Callers.step second) {}) := by
  obtain ⟨h, hbounded⟩ := sound_of_run second events
  generalize events.foldl (Callers.step second) {} = s at h hbounded
  constructor
  · exact h.once
  · intro n outcome hmem
    obtain ⟨call, hcall, houtcome⟩ := h.listed n outcome hmem
    exact ⟨call, hcall, houtcome, h.justified hcall houtcome⟩
  · exact fun n call hcall hawaited hopen => wait_ends second hcall hawaited hopen
  · exact h.setOnce
  · exact h.mem_set
  · intro n call start timeout recoverClient settled hcall hwait clientId object
    have hnone := h.not_pending_of_timedOut hcall hwait
    rcases complete_cases s.broker call.handle.requestId clientId object with
      ⟨-, hset, asyncRequests, -, heq⟩ | ⟨item, hitem, -⟩ | ⟨item, hitem, -⟩ | ⟨-, hset, heq⟩
    · rw [heq]
      exact ⟨rfl, hset⟩
    · exact absurd hitem (hnone item)
    · exact absurd hitem (hnone item)
    · rw [heq]
      exact ⟨rfl, hset⟩
  · exact hbounded.load
  · exact hbounded.unresolved
  · intro now clientId hstalled
    obtain ⟨item, hitem, hdue, hrecover, rfl⟩ := exists_of_mem_stalled hstalled
    obtain ⟨n, call, start, timeout, settled, hcall, htaken, hid, hclient, hwait, hat, hsilent⟩ :=
      h.unresolved item hitem
    rw [hrecover] at hwait
    exact ⟨n, call, start, timeout, settled, hcall, hclient, hwait, hat ▸ hdue, hsilent⟩

end Runs

end Callers

end Runtime
