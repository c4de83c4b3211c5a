import TeleBezel.Lib.Transition

/-!
# The transport of the phone

Messages for the watch wait in two queues and are handed to the platform one at a time. The platform
answers every message it has been handed once: it was acknowledged or it failed. A message that fails
goes back to the front of its queue; one that fails for the third time takes the rest of its stream
with it, and so does the cancellation of a stream.
-/

open List

namespace Phone

structure Transport.Item (μ σ : Type) where
  message : μ
  stream : Option σ
  retries : Nat
  bulk : Bool
  dropped : Bool

/-- What the platform sees: a message handed over while others wait in the interactive queue, its
answer, and a message in flight whose stream is cancelled. -/
inductive Transport.Entry where
  | called (item : Nat) (waiting : List Nat)
  | acked (item : Nat)
  | failed (item : Nat)
  | cut (item : Nat)
  deriving DecidableEq

/-- The transport, the answers the platform owes, and what the platform has seen. A message is known by
the number of messages sent before it. -/
structure Transport (μ σ : Type) where
  items : List (Transport.Item μ σ) := []
  interactive : List Nat := []
  bulk : List Nat := []
  current : Option Nat := none
  inFlight : List Nat := []
  log : List Transport.Entry := []

def defaultRetries : Nat := 2

inductive Transport.Event (μ σ : Type) where
  | send (message : μ) (stream : Option σ) (lane : Bool)
  | cancel (stream : Option σ)
  | callback (item : Nat) (succeeded : Bool)

namespace Transport

def Entry.calls (item : Nat) : Entry → Bool
  | .called other _ => other == item
  | _ => false

def Entry.ack : Entry → Option Nat
  | .acked item => some item
  | _ => none

variable {μ σ : Type}

def stream (t : Transport μ σ) (item : Nat) : Option σ :=
  t.items[item]?.bind Item.stream

def lane (t : Transport μ σ) (item : Nat) : Option Bool :=
  t.items[item]?.map Item.bulk

def queued (t : Transport μ σ) : List Nat :=
  t.interactive ++ t.bulk

def acked (t : Transport μ σ) : List Nat :=
  t.log.filterMap Entry.ack

def failures (t : Transport μ σ) (item : Nat) : Nat :=
  t.log.count (.failed item)

def calls (t : Transport μ σ) (item : Nat) : Nat :=
  t.log.countP (Entry.calls item)

def start (t : Transport μ σ) (item : Nat) : Transport μ σ :=
  { t with
    current := some item
    inFlight := t.inFlight ++ [item]
    log := t.log ++ [.called item t.interactive] }

def pump (t : Transport μ σ) : Transport μ σ :=
  match t.current, t.interactive, t.bulk with
  | some _, _, _ => t
  | none, [], [] => t
  | none, item :: rest, _ => { t with interactive := rest }.start item
  | none, [], item :: rest => { t with bulk := rest }.start item

section Code

variable [DecidableEq σ] (t : Transport μ σ)

/-- A stream is dropped: its waiting messages go, and the one in flight is not tried again. -/
def drop : Option σ → Transport μ σ
  | none => t
  | some stream =>
    let keep := fun item => decide (t.stream item ≠ some stream)
    { t with
      interactive := t.interactive.filter keep
      bulk := t.bulk.filter keep
      items := match t.current with
        | some item =>
          if t.stream item = some stream then
            t.items.modify item fun item => { item with dropped := true }
          else t.items
        | none => t.items }

def push (item : Item μ σ) : Transport μ σ :=
  let t' := { t with items := t.items ++ [item] }
  if item.bulk then { t' with bulk := t.bulk ++ [t.items.length] }
  else { t' with interactive := t.interactive ++ [t.items.length] }

def send (message : μ) (stream : Option σ) (lane : Bool) : Transport μ σ :=
  (t.push ⟨message, stream, defaultRetries, lane, false⟩).pump

def unshift (item : Nat) (bulk : Bool) : Transport μ σ :=
  if bulk then { t with bulk := item :: t.bulk } else { t with interactive := item :: t.interactive }

def retry (item : Nat) : Transport μ σ :=
  match t.items[item]? with
  | none => t
  | some it =>
    if it.dropped then t
    else if it.retries > 0 then
      { t with items := t.items.modify item fun it => { it with retries := it.retries - 1 } }.unshift item
        it.bulk
    else t.drop it.stream

def answered (item : Nat) (succeeded : Bool) : Transport μ σ :=
  { t with
    inFlight := t.inFlight.erase item
    log := t.log ++ [if succeeded then .acked item else .failed item] }

def callback (item : Nat) (succeeded : Bool) : Transport μ σ :=
  let released := { t with current := none }
  if succeeded then released.pump else (released.retry item).pump

def noted (stream : Option σ) : Transport μ σ :=
  { t with
    log := t.log ++
      (t.inFlight.filter fun item => decide (stream ≠ none ∧ t.stream item = stream)).map .cut }

def settle (item : Nat) (succeeded : Bool) : Transport μ σ :=
  let released := { t.answered item succeeded with current := none }
  if succeeded then released else released.retry item

/-- The transport takes one event; the platform answers only what it has been handed. -/
def step : Event μ σ → Transport μ σ
  | .send message stream lane => t.send message stream lane
  | .cancel stream => (t.noted stream).drop stream
  | .callback item succeeded =>
    if item ∈ t.inFlight then (t.answered item succeeded).callback item succeeded else t

end Code

/-! ## Where a message is -/

def queue (t : Transport μ σ) (bulk : Bool) : List Nat :=
  if bulk then t.bulk else t.interactive

/-- The messages of a lane that are still to be acknowledged, in the order they were sent. -/
def waiting (t : Transport μ σ) (bulk : Bool) : List Nat :=
  (t.current.toList.filter fun item => t.lane item = some bulk) ++ t.queue bulk

/-- The references are in place: a queue holds messages of its lane, the platform owes the answer to the
message in flight. -/
structure Placed (t : Transport μ σ) : Prop where
  known : ∀ bulk, ∀ item ∈ t.queue bulk, t.lane item = some bulk
  flying : t.inFlight = t.current.toList
  listed : ∀ item ∈ t.current, ∃ bulk, t.lane item = some bulk

structure Ordered (t : Transport μ σ) : Prop where
  sorted : ∀ bulk, (t.waiting bulk).Pairwise (· < ·)
  past : ∀ bulk, ∀ item ∈ t.acked, t.lane item = some bulk → ∀ later ∈ t.waiting bulk, item < later
  answers : ∀ bulk, (t.acked.filter fun item => t.lane item = some bulk).Pairwise (· < ·)

structure Tallied (t : Transport μ σ) : Prop where
  unseen : ∀ item, t.items.length ≤ item →
    t.calls item = 0 ∧ t.failures item = 0 ∧ .cut item ∉ t.log ∧ .acked item ∉ t.log
  cut : ∀ item it, t.items[item]? = some it → (it.dropped = true ↔ .cut item ∈ t.log)
  untried : ∀ bulk, ∀ item ∈ t.queue bulk, ∀ it, t.items[item]? = some it →
    it.dropped = false ∧ it.retries + t.failures item = 2 ∧ t.calls item = t.failures item
  tried : ∀ item ∈ t.current, ∀ it, t.items[item]? = some it →
    it.retries + t.failures item = 2 ∧ t.calls item = t.failures item + 1
  calls_le : ∀ item, t.calls item ≤ 3
  once : t.log.Pairwise fun earlier later =>
    ∀ item others, earlier = .acked item → later ≠ .called item others
  last : ∀ item others, .called item others ∈ t.log → t.lane item = some true → others = []

structure Loose (t : Transport μ σ) : Prop where
  placed : t.Placed
  ordered : t.Ordered
  tallied : t.Tallied

structure Kept (t : Transport μ σ) : Prop extends t.Loose where
  idle : t.current = none → t.queued = []

section

variable {t : Transport μ σ} {item : Nat}
include t item

theorem mem_queued_iff :
    item ∈ t.queued ↔ ∃ bulk, item ∈ t.queue bulk := by
  simp [queued, queue]

theorem mem_acked_iff : item ∈ t.acked ↔ .acked item ∈ t.log := by
  simp only [acked, mem_filterMap]
  constructor
  · rintro ⟨entry, hentry, hack⟩
    cases entry <;> cases hack
    exact hentry
  · exact fun h => ⟨_, h, rfl⟩

theorem lane_eq_none_iff :
    t.lane item = none ↔ t.items.length ≤ item := by
  simp [lane]

theorem lt_of_lane {bulk : Bool} (h : t.lane item = some bulk) :
    item < t.items.length := by
  by_contra hle
  rw [lane_eq_none_iff.mpr (by omega)] at h
  cases h

end

theorem Loose.not_acked {t : Transport μ σ} (h : t.Loose) {bulk : Bool} {item : Nat}
    (hitem : item ∈ t.queue bulk) : item ∉ t.acked := by
  intro hacked
  have hlt := h.ordered.past bulk item hacked (h.placed.known bulk item hitem) item
    (mem_append_right _ hitem)
  omega

/-! ## The next message is handed over -/

structure Handed (t t' : Transport μ σ) (item : Nat) (bulk : Bool) : Prop where
  free : t.current = none
  head : t.queue bulk = item :: t'.queue bulk
  other : t'.queue (!bulk) = t.queue (!bulk)
  first : bulk = true → t.queue false = []
  items : t'.items = t.items
  current : t'.current = some item
  inFlight : t'.inFlight = t.inFlight ++ [item]
  log : t'.log = t.log ++ [.called item (t'.queue false)]

theorem pump_cases (t : Transport μ σ) :
    (t.pump = t ∧ (t.current = none → t.queued = [])) ∨
      ∃ item bulk, Handed t t.pump item bulk := by
  obtain ⟨items, interactive, bulk, current, inFlight, log⟩ := t
  cases current with
  | some item => exact .inl ⟨rfl, nofun⟩
  | none =>
    cases interactive with
    | cons item rest => exact .inr ⟨item, false, by constructor <;> first | rfl | exact nofun⟩
    | nil =>
      cases bulk with
      | nil => exact .inl ⟨rfl, fun _ => rfl⟩
      | cons item rest => exact .inr ⟨item, true, by constructor <;> first | rfl | exact fun _ => rfl⟩

namespace Handed

variable {t t' : Transport μ σ} {item : Nat} {bulk : Bool}

section

variable (h : Handed t t' item bulk)
include h

theorem lane_eq (other : Nat) : t'.lane other = t.lane other := by
  simp [lane, h.items]

theorem waiting_eq (hknown : t.lane item = some bulk) (b : Bool) :
    t'.waiting b = t.waiting b := by
  by_cases hb : b = bulk
  · subst hb
    simp [waiting, h.current, h.free, h.head, h.lane_eq, hknown]
  · have hother : b = !bulk := by cases b <;> cases bulk <;> simp_all
    subst hother
    simp [waiting, h.current, h.free, h.other, h.lane_eq, hknown]

theorem acked_eq : t'.acked = t.acked := by
  simp [acked, h.log, Entry.ack]

theorem failures_eq (other : Nat) :
    t'.failures other = t.failures other := by
  simp [failures, h.log]

theorem calls_eq (other : Nat) :
    t'.calls other = t.calls other + if item = other then 1 else 0 := by
  simp [calls, h.log, Entry.calls, countP_cons]

theorem mem_queue {b : Bool} {other : Nat} (hmem : other ∈ t'.queue b) :
    other ∈ t.queue b := by
  by_cases hb : b = bulk
  · subst hb
    rw [h.head]
    exact mem_cons_of_mem _ hmem
  · have hother : b = !bulk := by cases b <;> cases bulk <;> simp_all
    subst hother
    rwa [← h.other]

theorem placed (hloose : t.Loose) : t'.Placed where
  known b other hmem := by rw [h.lane_eq]; exact hloose.placed.known b other (h.mem_queue hmem)
  flying := by rw [h.inFlight, hloose.placed.flying, h.free, h.current]; rfl
  listed other hmem := by
    rw [h.current, Option.mem_some_iff] at hmem
    subst hmem
    refine ⟨bulk, ?_⟩
    rw [h.lane_eq]
    exact hloose.placed.known bulk item (by rw [h.head]; exact mem_cons_self)

theorem ordered (hloose : t.Loose) : t'.Ordered := by
  have hknown : t.lane item = some bulk :=
    hloose.placed.known bulk item (by rw [h.head]; exact mem_cons_self)
  have hwaiting := h.waiting_eq hknown
  obtain ⟨hsorted, hpast, hanswers⟩ := hloose.ordered
  constructor
  · intro b
    rw [hwaiting]
    exact hsorted b
  · intro b other hacked hlane later hlater
    rw [h.acked_eq] at hacked
    rw [h.lane_eq] at hlane
    rw [hwaiting] at hlater
    exact hpast b other hacked hlane later hlater
  · intro b
    simp only [h.acked_eq, h.lane_eq]
    exact hanswers b

theorem ne_of_mem_queue (hloose : t.Loose) {b : Bool} {other : Nat}
    (hmem : other ∈ t'.queue b) : item ≠ other := by
  rintro rfl
  have hknown : t.lane item = some bulk :=
    hloose.placed.known bulk item (by rw [h.head]; exact mem_cons_self)
  have hsame := hloose.placed.known b item (h.mem_queue hmem)
  obtain rfl : bulk = b := by rw [hknown] at hsame; exact Option.some.inj hsame
  have hsorted := hloose.ordered.sorted bulk
  simp only [waiting, h.free, h.head, Option.toList_none, filter_nil, nil_append,
    pairwise_cons] at hsorted
  exact Nat.lt_irrefl _ (hsorted.1 item hmem)

theorem tallied (hloose : t.Loose) : t'.Tallied := by
  have hqueue : item ∈ t.queue bulk := by rw [h.head]; exact mem_cons_self
  have hknown : t.lane item = some bulk := hloose.placed.known bulk item hqueue
  have hlt := lt_of_lane hknown
  obtain ⟨hunseen, hcut, huntried, htried, hcalls, honce, hlast⟩ := hloose.tallied
  have hitem : t.items[item]? = some t.items[item] := List.getElem?_eq_getElem hlt
  obtain ⟨hdropped, hretries, hcount⟩ := huntried bulk item hqueue _ hitem
  constructor
  · intro other hother
    rw [h.items] at hother
    have hne : item ≠ other := by omega
    obtain ⟨hc, hf, hcutnot, hacknot⟩ := hunseen other hother
    rw [h.calls_eq, h.failures_eq, h.log]
    simp [hc, hf, hcutnot, hacknot, hne]
  · intro other it hit
    rw [h.items] at hit
    rw [hcut other it hit, h.log]
    simp
  · intro b other hmem it hit
    rw [h.items] at hit
    rw [h.calls_eq, h.failures_eq, if_neg (h.ne_of_mem_queue hloose hmem)]
    exact huntried b other (h.mem_queue hmem) it hit
  · intro other hother it hit
    rw [h.current, Option.mem_some_iff] at hother
    subst hother
    rw [h.items, hitem] at hit
    cases hit
    rw [h.calls_eq, h.failures_eq, if_pos rfl]
    omega
  · -- only a message that has been tried as often as it has failed is handed over
    intro other
    rw [h.calls_eq]
    split
    next heq => subst heq; omega
    next => exact hcalls other
  · rw [h.log, pairwise_append]
    refine ⟨honce, pairwise_singleton _ _, ?_⟩
    intro earlier hearlier later hlater other others hacked hcalled
    rw [mem_singleton, hcalled] at hlater
    cases hlater
    subst hacked
    exact hloose.not_acked hqueue (mem_acked_iff.mpr hearlier)
  · -- the bulk lane is served when the interactive queue is empty
    intro other others hcalled hlane
    rw [h.lane_eq] at hlane
    rw [h.log, mem_append, mem_singleton] at hcalled
    rcases hcalled with hcalled | hcalled
    · exact hlast other others hcalled hlane
    · cases hcalled
      obtain rfl : bulk = true := by rw [hknown] at hlane; exact Option.some.inj hlane
      have hother : t'.queue false = t.queue false := h.other
      rw [hother]
      exact h.first rfl

end

end Handed

theorem kept_pump {t : Transport μ σ} (h : t.Loose) : t.pump.Kept := by
  obtain ⟨heq, hidle⟩ | ⟨item, bulk, hhanded⟩ := pump_cases t
  · rw [heq]
    exact ⟨h, hidle⟩
  · refine ⟨⟨hhanded.placed h, hhanded.ordered h, hhanded.tallied h⟩, fun hnone => ?_⟩
    rw [hhanded.current] at hnone
    cases hnone

theorem Ordered.of_sublist {t t' : Transport μ σ} (h : t.Ordered)
    (hlane : ∀ item, t'.lane item = t.lane item) (hacked : t'.acked = t.acked)
    (hsub : ∀ bulk, List.Sublist (t'.waiting bulk) (t.waiting bulk)) : t'.Ordered where
  sorted bulk := (h.sorted bulk).sublist (hsub bulk)
  past bulk item hitem hbulk later hlater := by
    rw [hacked] at hitem
    rw [hlane] at hbulk
    exact h.past bulk item hitem hbulk later ((hsub bulk).subset hlater)
  answers bulk := by
    simp only [hacked, hlane]
    exact h.answers bulk

/-! ## A message is sent -/

section Push

variable (t : Transport μ σ) (item : Item μ σ)

theorem push_items : (t.push item).items = t.items ++ [item] := by
  unfold push
  split <;> rfl

theorem push_rest :
    (t.push item).current = t.current ∧ (t.push item).inFlight = t.inFlight ∧
      (t.push item).log = t.log := by
  unfold push
  split <;> exact ⟨rfl, rfl, rfl⟩

theorem push_queue (bulk : Bool) :
    (t.push item).queue bulk = t.queue bulk ++ if bulk = item.bulk then [t.items.length] else [] := by
  unfold push queue
  cases bulk <;> cases hb : item.bulk <;> simp

theorem push_getElem? {other : Nat} (hother : other ≠ t.items.length) :
    (t.push item).items[other]? = t.items[other]? := by
  rw [push_items, List.getElem?_append]
  split
  · rfl
  · rw [List.getElem?_eq_none (by simp; omega), List.getElem?_eq_none (by omega)]

theorem push_lane {other : Nat} (hother : other ≠ t.items.length) :
    (t.push item).lane other = t.lane other := by
  simp only [lane, push_getElem? t item hother]

theorem push_lane_length : (t.push item).lane t.items.length = some item.bulk := by
  simp [lane, push_items]

end Push

theorem push_waiting {t : Transport μ σ} (h : t.Placed) (item : Item μ σ) (bulk : Bool) :
    (t.push item).waiting bulk =
      t.waiting bulk ++ if bulk = item.bulk then [t.items.length] else [] := by
  have hcurrent : (t.push item).current.toList.filter (fun other => (t.push item).lane other = some bulk) =
      t.current.toList.filter fun other => t.lane other = some bulk := by
    rw [(push_rest t item).1]
    refine filter_congr fun other hother => ?_
    obtain ⟨b, hb⟩ := h.listed other (by simpa using hother)
    rw [push_lane t item (by have := lt_of_lane hb; omega)]
  rw [waiting, hcurrent, push_queue, waiting, append_assoc]

theorem lt_of_mem_waiting {t : Transport μ σ} (h : t.Placed) {bulk : Bool} {item : Nat}
    (hitem : item ∈ t.waiting bulk) : item < t.items.length := by
  rw [waiting, mem_append, mem_filter, decide_eq_true_eq] at hitem
  rcases hitem with ⟨-, hlane⟩ | hqueue
  · exact lt_of_lane hlane
  · exact lt_of_lane (h.known bulk item hqueue)

theorem lt_of_mem_acked {t : Transport μ σ} (h : t.Tallied) {item : Nat} (hitem : item ∈ t.acked) :
    item < t.items.length := by
  by_contra hle
  exact (h.unseen item (by omega)).2.2.2 (mem_acked_iff.mp hitem)

theorem loose_push {t : Transport μ σ} (h : t.Loose) {item : Item μ σ}
    (hretries : item.retries = 2) (hdropped : item.dropped = false) : (t.push item).Loose := by
  obtain ⟨hcurrent, hinFlight, hlog⟩ := push_rest t item
  have hacked : (t.push item).acked = t.acked := by simp only [acked, hlog]
  refine ⟨⟨?_, ?_, ?_⟩, ⟨?_, ?_, ?_⟩, ⟨?_, ?_, ?_, ?_, ?_, ?_, ?_⟩⟩
  · intro bulk other hother
    rw [push_queue, mem_append] at hother
    rcases hother with hother | hother
    · have hlane := h.placed.known bulk other hother
      rw [push_lane t item (by have := lt_of_lane hlane; omega), hlane]
    · split at hother
      next hbulk =>
        rw [mem_singleton] at hother
        subst hother hbulk
        exact push_lane_length t item
      next => cases hother
  · rw [hinFlight, hcurrent]
    exact h.placed.flying
  · rw [hcurrent]
    intro other hother
    obtain ⟨bulk, hlane⟩ := h.placed.listed other hother
    exact ⟨bulk, by rw [push_lane t item (by have := lt_of_lane hlane; omega), hlane]⟩
  · -- the new message is later than all that wait
    intro bulk
    rw [push_waiting h.placed, pairwise_append]
    refine ⟨h.ordered.sorted bulk, by split <;> simp, fun other hother new hnew => ?_⟩
    have hlt := lt_of_mem_waiting h.placed hother
    split at hnew
    · rw [mem_singleton] at hnew
      omega
    · cases hnew
  · intro bulk other hother hlane later hlater
    rw [hacked] at hother
    have hlt := lt_of_mem_acked h.tallied hother
    rw [push_lane t item (by omega)] at hlane
    rw [push_waiting h.placed, mem_append] at hlater
    rcases hlater with hlater | hlater
    · exact h.ordered.past bulk other hother hlane later hlater
    · split at hlater
      · rw [mem_singleton] at hlater
        omega
      · cases hlater
  · intro bulk
    rw [hacked]
    have hfilter : (t.acked.filter fun other => (t.push item).lane other = some bulk) =
        t.acked.filter fun other => t.lane other = some bulk := by
      refine filter_congr fun other hother => ?_
      rw [push_lane t item (by have := lt_of_mem_acked h.tallied hother; omega)]
    rw [hfilter]
    exact h.ordered.answers bulk
  · intro other hother
    rw [push_items, length_append] at hother
    simp only [calls, failures, hlog]
    exact h.tallied.unseen other (by simp at hother; omega)
  · intro other it hit
    rw [hlog]
    by_cases heq : other = t.items.length
    · subst heq
      simp only [push_items, List.getElem?_concat_length, Option.some.injEq] at hit
      subst hit
      simpa [hdropped] using (h.tallied.unseen _ (Nat.le_refl _)).2.2.1
    · rw [push_getElem? t item heq] at hit
      exact h.tallied.cut other it hit
  · intro bulk other hother it hit
    simp only [calls, failures, hlog]
    rw [push_queue, mem_append] at hother
    by_cases heq : other = t.items.length
    · subst heq
      simp only [push_items, List.getElem?_concat_length, Option.some.injEq] at hit
      subst hit
      obtain ⟨hcalls, hfailures, -, -⟩ := h.tallied.unseen _ (Nat.le_refl _)
      simp only [calls, failures] at hcalls hfailures
      exact ⟨hdropped, by omega, by omega⟩
    · rw [push_getElem? t item heq] at hit
      rcases hother with hother | hother
      · exact h.tallied.untried bulk other hother it hit
      · split at hother
        · exact absurd (mem_singleton.mp hother) heq
        · cases hother
  · rw [hcurrent]
    intro other hother it hit
    simp only [calls, failures, hlog]
    obtain ⟨bulk, hlane⟩ := h.placed.listed other hother
    rw [push_getElem? t item (by have := lt_of_lane hlane; omega)] at hit
    exact h.tallied.tried other hother it hit
  · intro other
    simp only [calls, hlog]
    exact h.tallied.calls_le other
  · rw [hlog]
    exact h.tallied.once
  · intro other others hcalled hlane
    rw [hlog] at hcalled
    have hlt : other < t.items.length := by
      by_contra hle
      have hzero := (h.tallied.unseen other (by omega)).1
      rw [calls, countP_eq_zero] at hzero
      exact hzero _ hcalled (by simp [Entry.calls])
    rw [push_lane t item (by omega)] at hlane
    exact h.tallied.last other others hcalled hlane

/-! ## The message in flight is answered -/

def released (t : Transport μ σ) (item : Nat) (succeeded : Bool) : Transport μ σ :=
  { t.answered item succeeded with current := none }

section Released

variable {t : Transport μ σ} {item : Nat} {succeeded : Bool}

theorem released_waiting (bulk : Bool) :
    (t.released item succeeded).waiting bulk = t.queue bulk := by
  simp [waiting, released, answered, queue]

theorem queue_sublist_waiting (t : Transport μ σ) (bulk : Bool) :
    List.Sublist (t.queue bulk) (t.waiting bulk) :=
  sublist_append_right _ _

theorem released_acked :
    (t.released item succeeded).acked = t.acked ++ if succeeded then [item] else [] := by
  cases succeeded <;> simp [acked, released, answered, Entry.ack]

theorem released_failures (other : Nat) :
    (t.released item succeeded).failures other =
      t.failures other + if succeeded = false ∧ item = other then 1 else 0 := by
  cases succeeded <;> simp [failures, released, answered, count_singleton]

theorem released_calls (other : Nat) :
    (t.released item succeeded).calls other = t.calls other := by
  cases succeeded <;> simp [calls, released, answered, Entry.calls]

theorem Kept.lt_of_mem_queue (h : t.Kept) (hcurrent : t.current = some item) {bulk : Bool}
    (hlane : t.lane item = some bulk) {other : Nat} (hother : other ∈ t.queue bulk) : item < other := by
  have hsorted := h.ordered.sorted bulk
  simp only [waiting, hcurrent, Option.toList_some, hlane, decide_true, filter_cons_of_pos,
    filter_nil, singleton_append, pairwise_cons] at hsorted
  exact hsorted.1 other hother

theorem Kept.ne_of_mem_queue (h : t.Kept) (hcurrent : t.current = some item) {bulk : Bool} {other : Nat}
    (hother : other ∈ t.queue bulk) : item ≠ other := by
  rintro rfl
  exact Nat.lt_irrefl _ (h.lt_of_mem_queue hcurrent (h.placed.known bulk item hother) hother)

theorem Kept.mem_waiting (hcurrent : t.current = some item) {bulk : Bool}
    (hlane : t.lane item = some bulk) : item ∈ t.waiting bulk := by
  simp [waiting, hcurrent, hlane]

theorem loose_released (h : t.Kept) (hcurrent : t.current = some item) :
    (t.released item succeeded).Loose := by
  obtain ⟨bulk, hlane⟩ := h.placed.listed item hcurrent
  have hlt := lt_of_lane hlane
  have hlog : (t.released item succeeded).log =
      t.log ++ [if succeeded then .acked item else .failed item] := rfl
  refine ⟨⟨?_, ?_, nofun⟩, ⟨?_, ?_, ?_⟩, ⟨?_, ?_, ?_, nofun, ?_, ?_, ?_⟩⟩
  · exact h.placed.known
  · simp [released, answered, h.placed.flying, hcurrent]
  · intro b
    rw [released_waiting]
    exact (h.ordered.sorted b).sublist (queue_sublist_waiting t b)
  · intro b other hother hb later hlater
    rw [released_waiting] at hlater
    rw [released_acked, mem_append] at hother
    rcases hother with hother | hother
    · exact h.ordered.past b other hother hb later ((queue_sublist_waiting t b).subset hlater)
    · split at hother
      · rw [mem_singleton] at hother
        subst hother
        exact h.lt_of_mem_queue hcurrent hb hlater
      · cases hother
  · -- what is acknowledged now is later than all that was acknowledged in its lane
    intro b
    rw [released_acked, filter_append, pairwise_append]
    have hone : (if succeeded then [item] else []).Pairwise (· < ·) := by cases succeeded <;> simp
    refine ⟨h.ordered.answers b, List.Pairwise.filter _ hone, fun earlier hearlier other hother => ?_⟩
    rw [mem_filter, decide_eq_true_eq] at hearlier hother
    obtain ⟨hother, hb⟩ := hother
    split at hother
    · rw [mem_singleton] at hother
      subst hother
      exact h.ordered.past b earlier hearlier.1 hearlier.2 other (Kept.mem_waiting hcurrent hb)
    · cases hother
  · intro other hother
    have hne : item ≠ other := by
      have : t.items.length ≤ other := hother
      omega
    obtain ⟨hcalls, hfailures, hcut, hacked⟩ := h.tallied.unseen other hother
    rw [released_calls, released_failures, hlog]
    cases succeeded <;> simp [hcalls, hfailures, hcut, hacked, hne, hne.symm]
  · intro other it hit
    rw [h.tallied.cut other it hit, hlog]
    cases succeeded <;> simp
  · intro b other hother it hit
    have hne := h.ne_of_mem_queue hcurrent hother
    rw [released_calls, released_failures, if_neg (fun hand => hne hand.2)]
    exact h.tallied.untried b other hother it hit
  · intro other
    rw [released_calls]
    exact h.tallied.calls_le other
  · rw [hlog, pairwise_append]
    refine ⟨h.tallied.once, pairwise_singleton _ _, fun earlier _ later hlater => ?_⟩
    rw [mem_singleton] at hlater
    subst hlater
    cases succeeded <;> simp
  · intro other others hcalled hb
    rw [hlog, mem_append, mem_singleton] at hcalled
    rcases hcalled with hcalled | hcalled
    · exact h.tallied.last other others hcalled hb
    · cases succeeded <;> cases hcalled

end Released

/-! ## A stream is dropped -/

section Cancelled

variable [DecidableEq σ]

/-- The platform has noted the cancellation of a stream and the stream has been dropped. -/
def cancelled (t : Transport μ σ) (stream : Option σ) : Transport μ σ :=
  (t.noted stream).drop stream

theorem cancelled_none (t : Transport μ σ) : t.cancelled none = t := by
  simp [cancelled, noted, drop]

theorem noted_of_free {t : Transport μ σ} (hplaced : t.Placed) (hfree : t.current = none)
    (stream : Option σ) : t.noted stream = t := by
  obtain ⟨items, interactive, bulk, current, inFlight, log⟩ := t
  have hflying : inFlight = current.toList := hplaced.flying
  have hnone : current = none := hfree
  subst hnone hflying
  simp [noted]

variable {t : Transport μ σ} {s : σ}

theorem cancelled_current : (t.cancelled (some s)).current = t.current := rfl

theorem cancelled_log : (t.cancelled (some s)).log =
    t.log ++ (t.inFlight.filter fun item => t.stream item = some s).map .cut := by
  simp [cancelled, noted, drop]

theorem cancelled_queue (bulk : Bool) : (t.cancelled (some s)).queue bulk =
    (t.queue bulk).filter fun item => t.stream item ≠ some s := by
  cases bulk <;> rfl

theorem cancelled_items : (t.cancelled (some s)).items =
    match t.current with
    | some item =>
      if t.stream item = some s then t.items.modify item fun item => { item with dropped := true }
      else t.items
    | none => t.items := rfl

variable (item : Nat)

theorem cancelled_getElem? : (t.cancelled (some s)).items[item]? =
    t.items[item]?.map fun it =>
      if t.current = some item ∧ t.stream item = some s then { it with dropped := true } else it := by
  rw [cancelled_items]
  cases hcurrent : t.current with
  | none => simp
  | some other =>
    simp only [Option.some.injEq]
    by_cases heq : other = item
    · subst heq
      split
      next hstream => simp [hstream]
      next hstream => simp [hstream]
    · split <;> simp [heq]

theorem cancelled_length : (t.cancelled (some s)).items.length = t.items.length := by
  rw [cancelled_items]
  split
  · split <;> simp
  · rfl

theorem cancelled_lane : (t.cancelled (some s)).lane item = t.lane item := by
  rw [lane, cancelled_getElem?, lane, Option.map_map]
  congr 1
  funext it
  rw [Function.comp_apply]
  split <;> rfl

theorem cancelled_stream : (t.cancelled (some s)).stream item = t.stream item := by
  rw [stream, cancelled_getElem?, Option.bind_map, stream]
  congr 1
  funext it
  rw [Function.comp_apply]
  split <;> rfl

theorem cancelled_acked : (t.cancelled (some s)).acked = t.acked := by
  simp [acked, cancelled_log, filterMap_map, Function.comp_def, Entry.ack]

theorem cancelled_failures : (t.cancelled (some s)).failures item = t.failures item := by
  simp [failures, cancelled_log, count_eq_zero]

theorem cancelled_calls : (t.cancelled (some s)).calls item = t.calls item := by
  simp [calls, cancelled_log, countP_map, Function.comp_def, Entry.calls]

theorem cancelled_waiting (bulk : Bool) :
    List.Sublist ((t.cancelled (some s)).waiting bulk) (t.waiting bulk) := by
  simp only [waiting, cancelled_current, cancelled_lane, cancelled_queue]
  exact List.Sublist.append_left filter_sublist _

theorem loose_cancelled (h : t.Loose) (stream : Option σ) : (t.cancelled stream).Loose := by
  cases stream with
  | none => rwa [cancelled_none]
  | some s =>
    refine ⟨⟨?_, h.placed.flying, ?_⟩,
      h.ordered.of_sublist cancelled_lane cancelled_acked cancelled_waiting,
      ⟨?_, ?_, ?_, ?_, ?_, ?_, ?_⟩⟩
    · intro bulk item hitem
      rw [cancelled_queue] at hitem
      rw [cancelled_lane]
      exact h.placed.known bulk item (mem_of_mem_filter hitem)
    · intro item hitem
      simp only [cancelled_lane]
      exact h.placed.listed item hitem
    · intro item hitem
      rw [cancelled_length] at hitem
      obtain ⟨hcalls, hfailures, hcut, hacked⟩ := h.tallied.unseen item hitem
      rw [cancelled_calls, cancelled_failures]
      refine ⟨hcalls, hfailures, ?_, by simpa [cancelled_log] using hacked⟩
      -- what is in flight has been made
      intro hmem
      simp only [cancelled_log, mem_append, hcut, false_or, mem_map, mem_filter,
        Entry.cut.injEq, exists_eq_right, h.placed.flying, Option.mem_toList] at hmem
      obtain ⟨bulk, hlane⟩ := h.placed.listed item hmem.1
      have := lt_of_lane hlane
      omega
    · -- the message in flight is marked exactly when the platform notes it
      intro item it hit
      rw [cancelled_getElem?, Option.map_eq_some_iff] at hit
      obtain ⟨it, hit, rfl⟩ := hit
      have hold := h.tallied.cut item it hit
      simp only [cancelled_log, mem_append, ← hold, mem_map, mem_filter,
        Entry.cut.injEq, exists_eq_right, h.placed.flying, Option.mem_toList, decide_eq_true_eq]
      by_cases hnow : t.current = some item ∧ t.stream item = some s
      · simp [hnow]
      · rw [if_neg hnow]
        simp only [hnow, or_false]
    · intro bulk item hitem it hit
      rw [cancelled_queue] at hitem
      have hqueue := mem_of_mem_filter hitem
      have hstream : ¬ (t.current = some item ∧ t.stream item = some s) := by
        simp only [mem_filter, decide_eq_true_eq] at hitem
        exact fun hand => hitem.2 hand.2
      rw [cancelled_getElem?, Option.map_eq_some_iff] at hit
      obtain ⟨it, hit, rfl⟩ := hit
      rw [if_neg hstream, cancelled_failures, cancelled_calls]
      exact h.tallied.untried bulk item hqueue it hit
    · intro item hitem it hit
      rw [cancelled_getElem?, Option.map_eq_some_iff] at hit
      obtain ⟨it, hit, rfl⟩ := hit
      rw [cancelled_failures, cancelled_calls]
      have htried := h.tallied.tried item hitem it hit
      split <;> exact htried
    · intro item
      rw [cancelled_calls]
      exact h.tallied.calls_le item
    · rw [cancelled_log, pairwise_append]
      refine ⟨h.tallied.once, ?_, ?_⟩
      · rw [pairwise_map]
        exact pairwise_of_forall fun _ _ => nofun
      · intro earlier _ later hlater item others _ hcalled
        rw [hcalled] at hlater
        simp at hlater
    · intro item others hcalled hlane
      rw [cancelled_lane] at hlane
      refine h.tallied.last item others ?_ hlane
      simpa [cancelled_log] using hcalled

end Cancelled

/-! ## A message is tried again -/

def retried (t : Transport μ σ) (item : Nat) (bulk : Bool) : Transport μ σ :=
  { t.released item false with
    items := t.items.modify item fun it => { it with retries := it.retries - 1 } }.unshift item bulk

section Retried

variable {t : Transport μ σ} {item : Nat} {bulk : Bool}

theorem retried_queue (b : Bool) :
    (t.retried item bulk).queue b = if b = bulk then item :: t.queue b else t.queue b := by
  cases b <;> cases bulk <;> rfl

theorem retried_getElem? (other : Nat) : (t.retried item bulk).items[other]? =
    t.items[other]?.map fun it =>
      if item = other then { it with retries := it.retries - 1 } else it := by
  have hitems : (t.retried item bulk).items =
      t.items.modify item fun it => { it with retries := it.retries - 1 } := by
    cases bulk <;> rfl
  rw [hitems, List.getElem?_modify]
  by_cases heq : item = other <;> simp [heq]

theorem retried_lane (other : Nat) : (t.retried item bulk).lane other = t.lane other := by
  rw [lane, retried_getElem?, lane, Option.map_map]
  congr 1
  funext it
  rw [Function.comp_apply]
  split <;> rfl

theorem retried_stream (other : Nat) : (t.retried item bulk).stream other = t.stream other := by
  rw [stream, retried_getElem?, Option.bind_map, stream]
  congr 1
  funext it
  rw [Function.comp_apply]
  split <;> rfl

theorem retried_rest : (t.retried item bulk).current = none ∧
    (t.retried item bulk).inFlight = (t.released item false).inFlight ∧
      (t.retried item bulk).log = (t.released item false).log := by
  cases bulk <;> exact ⟨rfl, rfl, rfl⟩

theorem retried_waiting (hcurrent : t.current = some item) (hlane : t.lane item = some bulk) (b : Bool) :
    (t.retried item bulk).waiting b = t.waiting b := by
  rw [waiting, retried_rest.1, retried_queue, waiting, hcurrent]
  by_cases hb : b = bulk
  · subst hb
    simp [hlane]
  · simp [hlane, hb, Ne.symm hb]

theorem loose_retried (h : t.Kept) (hcurrent : t.current = some item) {it : Item μ σ}
    (hit : t.items[item]? = some it) (hdropped : it.dropped = false) (hretries : it.retries > 0) :
    (t.retried item it.bulk).Loose := by
  have hlane : t.lane item = some it.bulk := by simp [lane, hit]
  have hreleased : (t.released item false).Loose := loose_released h hcurrent
  obtain ⟨hnone, hinFlight, hlog⟩ := @retried_rest μ σ t item it.bulk
  have hcalls : ∀ other, (t.retried item it.bulk).calls other = (t.released item false).calls other :=
    fun other => by simp only [calls, hlog]
  have hfailures : ∀ other,
      (t.retried item it.bulk).failures other = (t.released item false).failures other :=
    fun other => by simp only [failures, hlog]
  have hacked : (t.retried item it.bulk).acked = t.acked := by
    rw [acked, hlog]
    exact released_acked.trans (append_nil _)
  refine ⟨⟨?_, ?_, by simp [hnone]⟩,
    h.ordered.of_sublist retried_lane hacked fun b => by rw [retried_waiting hcurrent hlane],
    ⟨?_, ?_, ?_, by simp [hnone], ?_, ?_, ?_⟩⟩
  · intro b other hother
    rw [retried_queue] at hother
    rw [retried_lane]
    split at hother
    next hb =>
      rcases mem_cons.mp hother with rfl | hother
      · rw [hlane, hb]
      · exact h.placed.known b other hother
    next => exact h.placed.known b other hother
  · rw [hinFlight, hnone]
    exact hreleased.placed.flying
  · intro other hother
    have hlength : t.items.length ≤ other := by
      rwa [← lane_eq_none_iff, retried_lane, lane_eq_none_iff] at hother
    rw [hcalls, hfailures, hlog]
    exact hreleased.tallied.unseen other hlength
  · intro other it' hit'
    rw [retried_getElem?, Option.map_eq_some_iff] at hit'
    obtain ⟨it', hit', rfl⟩ := hit'
    rw [hlog]
    have hold := hreleased.tallied.cut other it' hit'
    split <;> exact hold
  · -- one more failure, one try less
    intro b other hother it' hit'
    rw [retried_getElem?, Option.map_eq_some_iff] at hit'
    obtain ⟨it', hit', rfl⟩ := hit'
    rw [hcalls, hfailures]
    by_cases heq : item = other
    · subst heq
      obtain rfl : it = it' := by rw [hit] at hit'; exact Option.some.inj hit'
      obtain ⟨hsum, hcount⟩ := h.tallied.tried item hcurrent it hit
      rw [if_pos rfl, released_calls, released_failures, if_pos ⟨rfl, rfl⟩]
      exact ⟨hdropped, by dsimp only; omega, by omega⟩
    · rw [if_neg heq]
      refine hreleased.tallied.untried b other ?_ it' hit'
      rw [retried_queue] at hother
      split at hother
      · rcases mem_cons.mp hother with hsame | hother
        · exact absurd hsame.symm heq
        · exact hother
      · exact hother
  · intro other
    rw [hcalls]
    exact hreleased.tallied.calls_le other
  · rw [hlog]
    exact hreleased.tallied.once
  · intro other others hcalled hb
    rw [retried_lane] at hb
    rw [hlog] at hcalled
    exact hreleased.tallied.last other others hcalled hb

end Retried

/-! ## What every event keeps -/

section Step

variable [DecidableEq σ] {t : Transport μ σ} {item : Nat}

theorem settle_cases (h : t.Kept) (hcurrent : t.current = some item) (succeeded : Bool) :
    ∃ it, t.items[item]? = some it ∧
      ((t.settle item succeeded = t.released item succeeded ∧
          (succeeded = true ∨ it.dropped = true)) ∨
        (succeeded = false ∧ it.dropped = false ∧ 0 < it.retries ∧
          t.settle item succeeded = t.retried item it.bulk) ∨
        (succeeded = false ∧ it.dropped = false ∧ it.retries = 0 ∧
          t.settle item succeeded = (t.released item false).cancelled it.stream)) := by
  obtain ⟨bulk, hlane⟩ := h.placed.listed item hcurrent
  obtain ⟨it, hit⟩ : ∃ it, t.items[item]? = some it :=
    ⟨_, List.getElem?_eq_getElem (lt_of_lane hlane)⟩
  refine ⟨it, hit, ?_⟩
  cases succeeded with
  | true => exact .inl ⟨rfl, .inl rfl⟩
  | false =>
    have hreleased : t.settle item false = (t.released item false).retry item := rfl
    have hit' : (t.released item false).items[item]? = some it := hit
    rw [hreleased, retry, hit']
    dsimp only
    by_cases hdropped : it.dropped = true
    · rw [if_pos hdropped]
      exact .inl ⟨rfl, .inr hdropped⟩
    · rw [if_neg hdropped]
      rw [Bool.not_eq_true] at hdropped
      by_cases hretries : it.retries > 0
      · rw [if_pos hretries]
        exact .inr (.inl ⟨rfl, hdropped, hretries, rfl⟩)
      · rw [if_neg hretries]
        have hfree : (t.released item false).current = none := rfl
        have hloose : (t.released item false).Loose := loose_released h hcurrent
        refine .inr (.inr ⟨rfl, hdropped, by omega, ?_⟩)
        rw [cancelled, noted_of_free hloose.placed hfree]

theorem callback_eq (item : Nat) (succeeded : Bool) :
    (t.answered item succeeded).callback item succeeded = (t.settle item succeeded).pump := by
  cases succeeded <;> rfl

omit [DecidableEq σ] in
theorem Kept.mem_inFlight_iff (h : t.Kept) {item : Nat} :
    item ∈ t.inFlight ↔ t.current = some item := by
  rw [h.placed.flying, Option.mem_toList]

theorem loose_settle (h : t.Kept) (hcurrent : t.current = some item) (succeeded : Bool) :
    (t.settle item succeeded).Loose := by
  obtain ⟨it, hit, ⟨heq, -⟩ | ⟨-, hdropped, hretries, heq⟩ | ⟨-, -, -, heq⟩⟩ :=
    settle_cases h hcurrent succeeded
  · rw [heq]
    exact loose_released h hcurrent
  · rw [heq]
    exact loose_retried h hcurrent hit hdropped hretries
  · rw [heq]
    exact loose_cancelled (loose_released h hcurrent) it.stream

theorem kept_step (h : t.Kept) (event : Event μ σ) : (t.step event).Kept := by
  cases event with
  | send message stream lane => exact kept_pump (loose_push h.toLoose rfl rfl)
  | cancel stream =>
    refine ⟨loose_cancelled h.toLoose stream, fun hnone => ?_⟩
    cases stream with
    | none => exact h.idle (by rw [step, ← cancelled, cancelled_none] at hnone; exact hnone)
    | some s =>
      have hqueued := h.idle hnone
      rw [queued, append_eq_nil_iff] at hqueued ⊢
      simp [step, noted, drop, hqueued]
  | callback item succeeded =>
    rw [step]
    split
    next hmem =>
      rw [callback_eq]
      exact kept_pump (loose_settle h (h.mem_inFlight_iff.mp hmem) succeeded)
    next => exact h

omit [DecidableEq σ] in
theorem kept_init : ({} : Transport μ σ).Kept := by
  refine ⟨⟨⟨?_, rfl, nofun⟩, ⟨?_, nofun, ?_⟩, ⟨?_, nofun, ?_, nofun, ?_, ?_, nofun⟩⟩, fun _ => rfl⟩ <;>
    simp [queue, waiting, acked, calls, failures]

/-! ## What is lost -/

def Waits (t : Transport μ σ) (item : Nat) : Prop :=
  ∃ bulk, item ∈ t.waiting bulk

/-- At this event the stream is dropped: it is cancelled, or a message of it fails for the third time
that was not in flight at a cancellation of the stream. -/
def Drops (s : σ) (t : Transport μ σ) (event : Event μ σ) : Prop :=
  event = .cancel (some s) ∨ ∃ item, event = .callback item false ∧ item ∈ t.inFlight ∧
    t.stream item = some s ∧ t.failures item = 2 ∧ .cut item ∉ t.log

/-- The message was queued when its stream was dropped. -/
def Swept (s : σ) (item : Nat) : List (Event μ σ) → Prop :=
  Transition.Sometime step (fun t event => t.Drops s event ∧ item ∈ t.queued) {}

/-- It was in flight when its stream was dropped. -/
def Caught (s : σ) (item : Nat) : List (Event μ σ) → Prop :=
  Transition.Sometime step (fun t event => t.Drops s event ∧ item ∈ t.inFlight) {}

omit [DecidableEq σ] in
theorem waiting_pump (h : t.Loose) (bulk : Bool) : t.pump.waiting bulk = t.waiting bulk := by
  obtain ⟨heq, -⟩ | ⟨item, b, hhanded⟩ := pump_cases t
  · rw [heq]
  · exact hhanded.waiting_eq
      (h.placed.known b item (by rw [hhanded.head]; exact mem_cons_self)) bulk

omit [DecidableEq σ] in
theorem waits_pump (h : t.Loose) (item : Nat) : t.pump.Waits item ↔ t.Waits item := by
  simp only [Waits, waiting_pump h]

omit [DecidableEq σ] in
theorem acked_pump (t : Transport μ σ) : t.pump.acked = t.acked := by
  obtain ⟨heq, -⟩ | ⟨item, b, hhanded⟩ := pump_cases t
  · rw [heq]
  · exact hhanded.acked_eq

omit [DecidableEq σ] in
theorem items_pump (t : Transport μ σ) : t.pump.items = t.items := by
  obtain ⟨heq, -⟩ | ⟨item, b, hhanded⟩ := pump_cases t
  · rw [heq]
  · exact hhanded.items

omit [DecidableEq σ] in
theorem cut_mem_pump (t : Transport μ σ) (item : Nat) :
    .cut item ∈ t.pump.log ↔ .cut item ∈ t.log := by
  obtain ⟨heq, -⟩ | ⟨other, b, hhanded⟩ := pump_cases t
  · rw [heq]
  · rw [hhanded.log]
    simp

omit [DecidableEq σ] in
theorem waits_of_queued {item : Nat} (h : item ∈ t.queued) : t.Waits item := by
  obtain ⟨bulk, hmem⟩ := mem_queued_iff.mp h
  exact ⟨bulk, (queue_sublist_waiting t bulk).subset hmem⟩

omit [DecidableEq σ] in
theorem Kept.waits_iff (h : t.Kept) {item : Nat} :
    t.Waits item ↔ item ∈ t.queued ∨ t.current = some item := by
  constructor
  · rintro ⟨bulk, hmem⟩
    rw [waiting, mem_append, mem_filter, Option.mem_toList] at hmem
    rcases hmem with ⟨hcurrent, -⟩ | hqueue
    · exact .inr hcurrent
    · exact .inl (mem_queued_iff.mpr ⟨bulk, hqueue⟩)
  · rintro (hqueued | hcurrent)
    · exact waits_of_queued hqueued
    · obtain ⟨bulk, hlane⟩ := h.placed.listed item hcurrent
      exact ⟨bulk, Kept.mem_waiting hcurrent hlane⟩

theorem stream_step (h : t.Kept) (hitem : item < t.items.length) (event : Event μ σ) :
    (t.step event).stream item = t.stream item ∧ item < (t.step event).items.length := by
  have hof : ∀ t' : Transport μ σ, (∀ other, other < t.items.length → t'.lane other = t.lane other) →
      item < t'.items.length := by
    intro t' hlane
    by_contra hle
    have hnone := lane_eq_none_iff.mpr (Nat.not_lt.mp hle)
    rw [hlane item hitem, lane_eq_none_iff] at hnone
    omega
  cases event with
  | send message stream lane =>
    refine ⟨?_, ?_⟩
    · simp only [step, send, Transport.stream, items_pump]
      rw [push_getElem? t _ (by omega)]
    · simp only [step, send, items_pump, push_items, length_append]
      omega
  | cancel stream =>
    change (t.cancelled stream).stream item = _ ∧ item < (t.cancelled stream).items.length
    cases stream with
    | none => rw [cancelled_none]; exact ⟨rfl, hitem⟩
    | some s => exact ⟨cancelled_stream item, hof _ fun other _ => cancelled_lane other⟩
  | callback other succeeded =>
    rw [step]
    split
    next hmem =>
      rw [callback_eq]
      simp only [Transport.stream, items_pump]
      obtain ⟨it, hit, ⟨heq, -⟩ | ⟨-, -, -, heq⟩ | ⟨-, -, -, heq⟩⟩ :=
        settle_cases h (h.mem_inFlight_iff.mp hmem) succeeded
      · rw [heq]
        exact ⟨rfl, hitem⟩
      · rw [heq]
        exact ⟨retried_stream item, hof _ fun other _ => retried_lane other⟩
      · rw [heq]
        cases it.stream with
        | none => rw [cancelled_none]; exact ⟨rfl, hitem⟩
        | some s => exact ⟨cancelled_stream item, hof _ fun other _ => cancelled_lane other⟩
    next => exact ⟨rfl, hitem⟩

variable {s : σ}

theorem mem_queued_cancelled :
    item ∈ (t.cancelled (some s)).queued ↔ item ∈ t.queued ∧ t.stream item ≠ some s := by
  simp only [mem_queued_iff, cancelled_queue, mem_filter, decide_eq_true_eq, exists_and_right]

omit [DecidableEq σ] in
theorem waits_iff_of_free (hfree : t.current = none) {item : Nat} :
    t.Waits item ↔ item ∈ t.queued := by
  simp [Waits, waiting, hfree, mem_queued_iff]

omit [DecidableEq σ] in
theorem mem_queued_released {item other : Nat} {succeeded : Bool} :
    other ∈ (t.released item succeeded).queued ↔ other ∈ t.queued := Iff.rfl

theorem waits_settle_iff (h : t.Kept) (hcurrent : t.current = some item) (succeeded : Bool) :
    ∃ it, t.items[item]? = some it ∧
      ((t.settle item succeeded = t.released item succeeded ∧
          (succeeded = true ∨ .cut item ∈ t.log) ∧
          ∀ other, (t.settle item succeeded).Waits other ↔ other ∈ t.queued) ∨
        (succeeded = false ∧ t.failures item ≠ 2 ∧ (t.settle item succeeded).acked = t.acked ∧
          ∀ other, (t.settle item succeeded).Waits other ↔ t.Waits other) ∨
        (succeeded = false ∧ t.failures item = 2 ∧ .cut item ∉ t.log ∧
          (t.settle item succeeded).acked = t.acked ∧
          ∀ other, (t.settle item succeeded).Waits other ↔
            other ∈ t.queued ∧ (t.stream item = none ∨ t.stream other ≠ t.stream item))) := by
  obtain ⟨it, hit, hcases⟩ := settle_cases h hcurrent succeeded
  have hcut := h.tallied.cut item it hit
  obtain ⟨hsum, -⟩ := h.tallied.tried item hcurrent it hit
  refine ⟨it, hit, ?_⟩
  rcases hcases with ⟨heq, hwhy⟩ | ⟨rfl, hdropped, hretries, heq⟩ | ⟨rfl, hdropped, hretries, heq⟩
  · refine .inl ⟨heq, ?_, fun other => ?_⟩
    · rwa [hcut] at hwhy
    · rw [heq, waits_iff_of_free rfl]
      exact mem_queued_released
  · have hlane : t.lane item = some it.bulk := by simp [lane, hit]
    refine .inr (.inl ⟨rfl, by omega, ?_, fun other => ?_⟩)
    · rw [heq, acked, (retried_rest).2.2]
      exact released_acked.trans (append_nil _)
    · rw [heq]
      simp only [Waits, retried_waiting hcurrent hlane]
  · have hstream : t.stream item = it.stream := by simp [Transport.stream, hit]
    have hnot : .cut item ∉ t.log := by rw [← hcut, hdropped]; simp
    refine .inr (.inr ⟨rfl, by omega, hnot, ?_, fun other => ?_⟩)
    · rw [heq]
      cases it.stream with
      | none => rw [cancelled_none]; exact released_acked.trans (append_nil _)
      | some s => rw [cancelled_acked]; exact released_acked.trans (append_nil _)
    · rw [heq, hstream]
      cases it.stream with
      | none =>
        rw [cancelled_none, waits_iff_of_free rfl, mem_queued_released]
        simp
      | some s =>
        rw [waits_iff_of_free rfl, mem_queued_cancelled, mem_queued_released]
        simp [Transport.stream, released, answered]

theorem waits_cancelled_iff (h : t.Kept) :
    (t.cancelled (some s)).Waits item ↔
      t.current = some item ∨ item ∈ t.queued ∧ t.stream item ≠ some s := by
  have hkept : (t.cancelled (some s)).Kept := kept_step h (.cancel (some s))
  rw [hkept.waits_iff, mem_queued_cancelled, or_comm]
  rfl

section

variable (h : t.Kept) (event : Event μ σ)
include h event

/-- **What is lost, in one event.** A message that waits still waits after an event, or it has been
acknowledged, or its stream was dropped while it was queued or in flight. -/
theorem waits_step (hstream : t.stream item = some s) (hwaits : t.Waits item) :
    (t.step event).Waits item ∨ item ∈ (t.step event).acked ∨ .cut item ∈ t.log ∨
      t.Drops s event ∧ (item ∈ t.queued ∨ item ∈ t.inFlight) := by
  cases event with
  | send message stream lane =>
    have hloose : (t.push ⟨message, stream, defaultRetries, lane, false⟩).Loose :=
      loose_push h.toLoose rfl rfl
    obtain ⟨bulk, hmem⟩ := hwaits
    refine .inl ((waits_pump hloose item).mpr ⟨bulk, ?_⟩)
    rw [push_waiting h.placed]
    exact mem_append_left _ hmem
  | cancel stream =>
    change (t.cancelled stream).Waits item ∨ _
    cases stream with
    | none => rw [cancelled_none]; exact .inl hwaits
    | some s' =>
      rw [waits_cancelled_iff h]
      rcases h.waits_iff.mp hwaits with hqueued | hcurrent
      · by_cases hsame : s = s'
        · subst hsame
          exact .inr (.inr (.inr ⟨.inl rfl, .inl hqueued⟩))
        · refine .inl (.inr ⟨hqueued, ?_⟩)
          rw [hstream]
          exact fun heq => hsame (Option.some.inj heq)
      · exact .inl (.inl hcurrent)
  | callback other succeeded =>
    rw [step]
    split
    next hmem =>
      have hcurrent := h.mem_inFlight_iff.mp hmem
      have hloose := loose_settle h hcurrent succeeded
      rw [callback_eq, waits_pump hloose, acked_pump]
      rw [h.waits_iff, hcurrent, Option.some.injEq] at hwaits
      obtain ⟨it, -, ⟨heq, hwhy, hiff⟩ | ⟨-, -, -, hiff⟩ | ⟨rfl, hthird, hcut, -, hiff⟩⟩ :=
        waits_settle_iff h hcurrent succeeded
      · rcases hwaits with hqueued | rfl
        · exact .inl ((hiff item).mpr hqueued)
        · rcases hwhy with rfl | hcut
          · refine .inr (.inl ?_)
            rw [heq, released_acked]
            simp
          · exact .inr (.inr (.inl hcut))
      · refine .inl ((hiff item).mpr ?_)
        rw [h.waits_iff, hcurrent, Option.some.injEq]
        exact hwaits
      · -- the third failure takes the stream with it
        by_cases hsame : t.stream other = some s
        · refine .inr (.inr (.inr ⟨.inr ⟨other, rfl, hmem, hsame, hthird, hcut⟩, ?_⟩))
          rcases hwaits with hqueued | rfl
          · exact .inl hqueued
          · exact .inr hmem
        · rcases hwaits with hqueued | rfl
          · refine .inl ((hiff item).mpr ⟨hqueued, .inr ?_⟩)
            rw [hstream]
            exact fun heq => hsame heq.symm
          · exact absurd hstream hsame
    next => exact .inl hwaits

theorem waits_of_step (hitem : item < t.items.length)
    (hwaits : (t.step event).Waits item) : t.Waits item := by
  cases event with
  | send message stream lane =>
    have hloose : (t.push ⟨message, stream, defaultRetries, lane, false⟩).Loose :=
      loose_push h.toLoose rfl rfl
    obtain ⟨bulk, hmem⟩ := (waits_pump hloose item).mp hwaits
    rw [push_waiting h.placed, mem_append] at hmem
    rcases hmem with hmem | hmem
    · exact ⟨bulk, hmem⟩
    · split at hmem
      · rw [mem_singleton] at hmem
        omega
      · cases hmem
  | cancel stream =>
    change (t.cancelled stream).Waits item at hwaits
    cases stream with
    | none => rwa [cancelled_none] at hwaits
    | some s =>
      rw [waits_cancelled_iff h] at hwaits
      rw [h.waits_iff]
      exact hwaits.symm.imp_left And.left
  | callback other succeeded =>
    rw [step] at hwaits
    split at hwaits
    next hmem =>
      have hcurrent := h.mem_inFlight_iff.mp hmem
      rw [callback_eq, waits_pump (loose_settle h hcurrent succeeded)] at hwaits
      obtain ⟨it, -, ⟨-, -, hiff⟩ | ⟨-, -, -, hiff⟩ | ⟨-, -, -, -, hiff⟩⟩ :=
        waits_settle_iff h hcurrent succeeded
      · exact waits_of_queued ((hiff item).mp hwaits)
      · exact (hiff item).mp hwaits
      · exact waits_of_queued ((hiff item).mp hwaits).1
    next => exact hwaits

theorem acked_step (hacked : item ∈ (t.step event).acked) :
    item ∈ t.acked ∨ t.current = some item ∧ event = .callback item true := by
  cases event with
  | send message stream lane =>
    rw [step, send, acked_pump, acked, (push_rest t _).2.2] at hacked
    exact .inl hacked
  | cancel stream =>
    change item ∈ (t.cancelled stream).acked at hacked
    cases stream with
    | none => rw [cancelled_none] at hacked; exact .inl hacked
    | some s => rw [cancelled_acked] at hacked; exact .inl hacked
  | callback other succeeded =>
    rw [step] at hacked
    split at hacked
    next hmem =>
      have hcurrent := h.mem_inFlight_iff.mp hmem
      rw [callback_eq, acked_pump] at hacked
      obtain ⟨it, -, ⟨heq, -, -⟩ | ⟨-, -, heq, -⟩ | ⟨-, -, -, heq, -⟩⟩ :=
        waits_settle_iff h hcurrent succeeded
      · rw [heq, released_acked, mem_append] at hacked
        rcases hacked with hacked | hacked
        · exact .inl hacked
        · cases succeeded with
          | true => rw [mem_singleton.mp hacked]; exact .inr ⟨hcurrent, rfl⟩
          | false => cases hacked
      · rw [heq] at hacked; exact .inl hacked
      · rw [heq] at hacked; exact .inl hacked
    next => exact .inl hacked

theorem acked_of_step (hacked : item ∈ t.acked) :
    item ∈ (t.step event).acked := by
  cases event with
  | send message stream lane =>
    rw [step, send, acked_pump, acked, (push_rest t _).2.2]
    exact hacked
  | cancel stream =>
    change item ∈ (t.cancelled stream).acked
    cases stream with
    | none => rwa [cancelled_none]
    | some s => rwa [cancelled_acked]
  | callback other succeeded =>
    rw [step]
    split
    next hmem =>
      rw [callback_eq, acked_pump]
      obtain ⟨it, -, ⟨heq, -, -⟩ | ⟨-, -, heq, -⟩ | ⟨-, -, -, heq, -⟩⟩ :=
        waits_settle_iff h (h.mem_inFlight_iff.mp hmem) succeeded
      · rw [heq, released_acked]
        exact mem_append_left _ hacked
      · rwa [heq]
      · rwa [heq]
    next => exact hacked

end

theorem lost_step (h : t.Kept) {event : Event μ σ}
    (hstream : t.stream item = some s) (hdrops : t.Drops s event) (hqueued : item ∈ t.queued) :
    ¬ (t.step event).Waits item ∧ item ∉ (t.step event).acked := by
  have hnew : item ∉ t.acked := by
    obtain ⟨bulk, hmem⟩ := mem_queued_iff.mp hqueued
    exact h.not_acked hmem
  have hbehind : t.current ≠ some item := by
    intro hcurrent
    obtain ⟨bulk, hmem⟩ := mem_queued_iff.mp hqueued
    exact h.ne_of_mem_queue hcurrent hmem rfl
  refine ⟨?_, fun hacked => ?_⟩
  · rcases hdrops with rfl | ⟨other, rfl, hmem, hother, hthird, hnocut⟩
    · change ¬ (t.cancelled (some s)).Waits item
      rw [waits_cancelled_iff h]
      rintro (hcurrent | ⟨-, hne⟩)
      · exact hbehind hcurrent
      · exact hne hstream
    · have hcurrent := h.mem_inFlight_iff.mp hmem
      rw [step, if_pos hmem, callback_eq, waits_pump (loose_settle h hcurrent false)]
      obtain ⟨it, -, ⟨-, hwhy, -⟩ | ⟨-, hne, -, -⟩ | ⟨-, -, -, -, hiff⟩⟩ :=
        waits_settle_iff h hcurrent false
      · exact absurd hwhy (by simpa using hnocut)
      · exact absurd hthird hne
      · rw [hiff, hother, hstream]
        simp
  · rcases acked_step h event hacked with hold | ⟨hcurrent, -⟩
    · exact hnew hold
    · exact hbehind hcurrent

theorem cut_step (h : t.Kept) (event : Event μ σ) (hcut : .cut item ∈ (t.step event).log) :
    .cut item ∈ t.log ∨ ∃ s, event = .cancel (some s) ∧ t.stream item = some s ∧ item ∈ t.inFlight := by
  cases event with
  | send message stream lane =>
    rw [step, send, cut_mem_pump, (push_rest t _).2.2] at hcut
    exact .inl hcut
  | cancel stream =>
    change .cut item ∈ (t.cancelled stream).log at hcut
    cases stream with
    | none => rw [cancelled_none] at hcut; exact .inl hcut
    | some s =>
      simp only [cancelled_log, mem_append, mem_map, mem_filter, decide_eq_true_eq,
        Entry.cut.injEq, exists_eq_right] at hcut
      exact hcut.imp id fun hnow => ⟨s, rfl, hnow.2, hnow.1⟩
  | callback other succeeded =>
    rw [step] at hcut
    split at hcut
    next hmem =>
      have hcurrent := h.mem_inFlight_iff.mp hmem
      have hreleased : .cut item ∈ (t.released other succeeded).log → .cut item ∈ t.log := by
        intro hlog
        change .cut item ∈ t.log ++ [if succeeded then .acked other else .failed other] at hlog
        cases succeeded <;> simpa using hlog
      rw [callback_eq, cut_mem_pump] at hcut
      obtain ⟨it, -, ⟨heq, -⟩ | ⟨rfl, -, -, heq⟩ | ⟨rfl, -, -, heq⟩⟩ :=
        settle_cases h hcurrent succeeded
      · rw [heq] at hcut
        exact .inl (hreleased hcut)
      · rw [heq, (retried_rest).2.2] at hcut
        exact .inl (hreleased hcut)
      · rw [heq] at hcut
        cases hs : it.stream with
        | none => rw [hs, cancelled_none] at hcut; exact .inl (hreleased hcut)
        | some s =>
          rw [hs, cancelled_log] at hcut
          have hnone : (t.released other false).inFlight = [] := by
            simp [released, answered, h.placed.flying, hcurrent]
          rw [hnone, filter_nil, map_nil, append_nil] at hcut
          exact .inl (hreleased hcut)
    next => exact .inl hcut

/-! ## Runs -/

def run (events : List (Event μ σ)) : Transport μ σ :=
  events.foldl step {}

theorem run_snoc (events : List (Event μ σ)) (event : Event μ σ) :
    run (events ++ [event]) = (run events).step event := by
  simp [run, foldl_append]

theorem kept_run (events : List (Event μ σ)) : (run events).Kept := by
  induction events using List.reverseRecOn with
  | nil => exact kept_init
  | append_singleton events event ih =>
    rw [run_snoc]
    exact kept_step ih event

omit [DecidableEq σ] in
theorem lt_of_stream {item : Nat} {s : σ} (h : t.stream item = some s) : item < t.items.length := by
  by_contra hle
  rw [Transport.stream, List.getElem?_eq_none (by omega)] at h
  cases h

theorem stream_step_cases (h : t.Kept) {event : Event μ σ}
    (hstream : (t.step event).stream item = some s) :
    t.stream item = some s ∨ (t.step event).Waits item ∧ t.items.length ≤ item := by
  by_cases hitem : item < t.items.length
  · rw [(stream_step h hitem event).1] at hstream
    exact .inl hstream
  · refine .inr ⟨?_, by omega⟩
    have hlength := lt_of_stream hstream
    have hkept := kept_step h event
    cases event with
    | send message stream lane =>
      have hloose : (t.push ⟨message, stream, defaultRetries, lane, false⟩).Loose :=
        loose_push h.toLoose rfl rfl
      simp only [step, send, items_pump, push_items, length_append, length_singleton] at hlength
      obtain rfl : item = t.items.length := by omega
      rw [step, send, waits_pump hloose]
      refine ⟨lane, ?_⟩
      rw [push_waiting h.placed]
      simp
    | cancel stream =>
      change (t.cancelled stream).stream item = some s at hstream
      cases stream with
      | none => rw [cancelled_none] at hstream; exact absurd (lt_of_stream hstream) hitem
      | some s' => rw [cancelled_stream] at hstream; exact absurd (lt_of_stream hstream) hitem
    | callback other succeeded =>
      rw [step] at hstream
      split at hstream
      next hmem =>
        have hcurrent := h.mem_inFlight_iff.mp hmem
        rw [callback_eq, Transport.stream, items_pump, ← Transport.stream] at hstream
        obtain ⟨it, hit, ⟨heq, -⟩ | ⟨-, -, -, heq⟩ | ⟨-, -, -, heq⟩⟩ :=
          settle_cases h hcurrent succeeded
        · rw [heq] at hstream
          exact absurd (lt_of_stream (t := t) hstream) hitem
        · rw [heq, retried_stream] at hstream
          exact absurd (lt_of_stream hstream) hitem
        · rw [heq] at hstream
          have hreleased : (t.released other false).stream item = some s := by
            revert hstream
            cases it.stream with
            | none => rw [cancelled_none]; exact id
            | some s' => rw [cancelled_stream]; exact id
          exact absurd (lt_of_stream (t := t) hreleased) hitem
      next => exact absurd (lt_of_stream hstream) hitem

variable {events : List (Event μ σ)}

theorem caught_of_cut
    (hstream : (run events).stream item = some s) (hcut : .cut item ∈ (run events).log) :
    Caught s item events := by
  induction events using List.reverseRecOn with
  | nil => cases hcut
  | append_singleton events event ih =>
    rw [run_snoc] at hstream hcut
    rw [Caught, Transition.sometime_snoc]
    have hkept := kept_run events
    rcases cut_step hkept event hcut with hcut | ⟨s', rfl, hold, hmem⟩
    · refine .inl (ih ?_ hcut)
      have hmade : item < (run events).items.length := by
        by_contra hle
        exact (hkept.tallied.unseen item (by omega)).2.2.1 hcut
      rwa [(stream_step hkept hmade event).1] at hstream
    · rw [(stream_step hkept (lt_of_stream hold) _).1, hold, Option.some.injEq] at hstream
      subst hstream
      exact .inr ⟨.inl rfl, hmem⟩

theorem traced_run (hstream : (run events).stream item = some s) :
    (run events).Waits item ∨ item ∈ (run events).acked ∨ Swept s item events ∨
      Caught s item events := by
  induction events using List.reverseRecOn with
  | nil => cases hstream
  | append_singleton events event ih =>
    have hkept := kept_run events
    rw [run_snoc] at hstream ⊢
    rcases stream_step_cases hkept hstream with hold | ⟨hwaits, -⟩
    · rw [Swept, Caught, Transition.sometime_snoc, Transition.sometime_snoc]
      rcases ih hold with hwaits | hacked | hswept | hcaught
      · rcases waits_step hkept event hold hwaits with hwaits | hacked | hcut | ⟨hdrops, hwhere⟩
        · exact .inl hwaits
        · exact .inr (.inl hacked)
        · exact .inr (.inr (.inr (.inl (caught_of_cut hold hcut))))
        · rcases hwhere with hqueued | hmem
          · exact .inr (.inr (.inl (.inr ⟨hdrops, hqueued⟩)))
          · exact .inr (.inr (.inr (.inr ⟨hdrops, hmem⟩)))
      · exact .inr (.inl (acked_of_step hkept event hacked))
      · exact .inr (.inr (.inl (.inl hswept)))
      · exact .inr (.inr (.inr (.inl hcaught)))
    · exact .inl hwaits

theorem made_of_swept (hswept : Swept s item events) : item < (run events).items.length := by
  induction events using List.reverseRecOn with
  | nil => exact absurd hswept (Transition.not_sometime_nil _ _ _)
  | append_singleton events event ih =>
    have hkept := kept_run events
    rw [Swept, Transition.sometime_snoc] at hswept
    rw [run_snoc]
    refine (stream_step hkept ?_ event).2
    rcases hswept with hswept | ⟨-, hqueued⟩
    · exact ih hswept
    · obtain ⟨bulk, hmem⟩ := mem_queued_iff.mp hqueued
      exact lt_of_lane (hkept.placed.known bulk item hmem)

theorem gone_of_swept (hstream : (run events).stream item = some s) (hswept : Swept s item events) :
    ¬ (run events).Waits item ∧ item ∉ (run events).acked := by
  induction events using List.reverseRecOn with
  | nil => exact absurd hswept (Transition.not_sometime_nil _ _ _)
  | append_singleton events event ih =>
    have hkept := kept_run events
    rw [Swept, Transition.sometime_snoc] at hswept
    rw [run_snoc] at hstream ⊢
    have hold : (run events).stream item = some s := by
      refine (stream_step_cases hkept hstream).resolve_right fun hnew => ?_
      rcases hswept with hswept | ⟨-, hqueued⟩
      · exact absurd (made_of_swept hswept) (by omega)
      · obtain ⟨bulk, hmem⟩ := mem_queued_iff.mp hqueued
        have := lt_of_lane (hkept.placed.known bulk item hmem)
        omega
    rcases hswept with hswept | ⟨hdrops, hqueued⟩
    · obtain ⟨hwaits, hacked⟩ := ih hold hswept
      refine ⟨fun hnow => hwaits (waits_of_step hkept event (lt_of_stream hold) hnow), fun hnow => ?_⟩
      rcases acked_step hkept event hnow with hbefore | ⟨hcurrent, -⟩
      · exact hacked hbefore
      · exact hwaits (hkept.waits_iff.mpr (.inr hcurrent))
    · exact lost_step hkept hold hdrops hqueued

def Item.sent (item : Item μ σ) : μ × Option σ × Bool :=
  (item.message, item.stream, item.bulk)

def Event.sends : Event μ σ → Option (μ × Option σ × Bool)
  | .send message stream lane => some (message, stream, lane)
  | _ => none

theorem sent_cancelled (t : Transport μ σ) (stream : Option σ) :
    (t.cancelled stream).items.map Item.sent = t.items.map Item.sent := by
  cases stream with
  | none => rw [cancelled_none]
  | some s =>
    apply ext_getElem?
    intro item
    rw [List.getElem?_map, cancelled_getElem?, Option.map_map, List.getElem?_map]
    congr 1
    funext it
    rw [Function.comp_apply]
    split <;> rfl

omit [DecidableEq σ] in
theorem sent_retried {item : Nat} {bulk : Bool} :
    (t.retried item bulk).items.map Item.sent = t.items.map Item.sent := by
  apply ext_getElem?
  intro other
  rw [List.getElem?_map, retried_getElem?, Option.map_map, List.getElem?_map]
  congr 1
  funext it
  rw [Function.comp_apply]
  split <;> rfl

theorem sent_run (events : List (Event μ σ)) :
    (run events).items.map Item.sent = events.filterMap Event.sends := by
  induction events using List.reverseRecOn with
  | nil => rfl
  | append_singleton events event ih =>
    have hkept := kept_run events
    rw [run_snoc, filterMap_append, ← ih]
    cases event with
    | send message stream lane =>
      rw [step, send, items_pump, push_items, map_append]
      rfl
    | cancel stream =>
      change ((run events).cancelled stream).items.map Item.sent = _
      rw [sent_cancelled]
      exact (append_nil _).symm
    | callback item succeeded =>
      rw [step]
      split
      next hmem =>
        rw [callback_eq, items_pump]
        obtain ⟨it, -, ⟨heq, -⟩ | ⟨-, -, -, heq⟩ | ⟨-, -, -, heq⟩⟩ :=
          settle_cases hkept (hkept.mem_inFlight_iff.mp hmem) succeeded
        · rw [heq]
          exact (append_nil _).symm
        · rw [heq, sent_retried]
          exact (append_nil _).symm
        · rw [heq, sent_cancelled]
          exact (append_nil _).symm
      next => exact (append_nil _).symm

/-- **The transport keeps order.** After every sequence of events: messages are numbered as they were
sent; at most one is in flight; none is handed over again after it was acknowledged, and none more than
three times; those of a stream and lane that were acknowledged were so in the order they were sent; a
message of the bulk lane was handed over while no interactive one waited. Once nothing is in flight
the queues are empty, and the messages of a stream that are missing are exactly those that were queued,
or in flight and then not acknowledged, when the stream was dropped. -/
theorem keepsOrder_of_run (events : List (Event μ σ)) :
    (run events).items.map Item.sent = events.filterMap Event.sends ∧
      (run events).inFlight.length ≤ 1 ∧
      ((run events).log.Pairwise fun earlier later =>
        ∀ item others, earlier = .acked item → later ≠ .called item others) ∧
      (∀ item, (run events).calls item ≤ 3) ∧
      (∀ s bulk, ((run events).acked.filter fun item =>
        (run events).stream item = some s ∧ (run events).lane item = some bulk).Pairwise (· < ·)) ∧
      (∀ item others, .called item others ∈ (run events).log →
        (run events).lane item = some true → others = []) ∧
      ((run events).inFlight = [] → (run events).queued = [] ∧
        ∀ item s, (run events).stream item = some s →
          (item ∉ (run events).acked ↔
            Swept s item events ∨ Caught s item events ∧ item ∉ (run events).acked)) := by
  have hkept := kept_run events
  refine ⟨sent_run events, ?_, hkept.tallied.once, hkept.tallied.calls_le, fun s bulk => ?_,
    hkept.tallied.last, fun hidle => ?_⟩
  · rw [hkept.placed.flying]
    cases (run events).current <;> simp
  · have hlane := hkept.ordered.answers bulk
    refine List.Pairwise.sublist ?_ hlane
    refine List.monotone_filter_right _ fun item hitem => ?_
    simp only [decide_eq_true_eq] at hitem ⊢
    exact hitem.2
  · have hfree : (run events).current = none := by
      have hflying := hkept.placed.flying
      rw [hidle] at hflying
      exact Option.toList_eq_nil_iff.mp hflying.symm
    have hempty := hkept.idle hfree
    refine ⟨hempty, fun item s hstream => ⟨fun hmissing => ?_, ?_⟩⟩
    · rcases traced_run hstream with hwaits | hacked | hswept | hcaught
      · rw [hkept.waits_iff, hempty, hfree] at hwaits
        simp at hwaits
      · exact absurd hacked hmissing
      · exact .inl hswept
      · exact .inr ⟨hcaught, hmissing⟩
    · rintro (hswept | ⟨-, hmissing⟩)
      · exact (gone_of_swept hstream hswept).2
      · exact hmissing

/-- The stream is cancelled, or a message of it fails for the third time, cut off or not. -/
def Ends (s : σ) (t : Transport μ σ) (event : Event μ σ) : Prop :=
  event = .cancel (some s) ∨ ∃ item, event = .callback item false ∧ item ∈ t.inFlight ∧
    t.stream item = some s ∧ t.failures item = 2

/-- A message fails twice, its stream is cancelled while it is tried for the third time, and another
message of the stream is sent; then the first one fails and the other is acknowledged. -/
def cutOff : List (Event Nat Nat) :=
  [.send 10 (some 7) false, .callback 0 false, .callback 0 false, .cancel (some 7),
    .send 11 (some 7) false, .callback 0 false, .callback 1 true]

/-- A message that was cut off takes nothing with it when it fails for the third time. -/
theorem not_missing_iff_ends : ¬ ∀ (events : List (Event Nat Nat)) (item s : Nat),
    (run events).inFlight = [] → (run events).stream item = some s →
      (item ∉ (run events).acked ↔
        Transition.Sometime step (fun t event => t.Ends s event ∧ item ∈ t.queued) {} events ∨
          Transition.Sometime step (fun t event => t.Ends s event ∧ item ∈ t.inFlight) {} events ∧
            item ∉ (run events).acked) := by
  intro h
  refine (h cutOff 1 7 (by decide) (by decide)).mpr (.inl ?_) (by decide)
  refine ⟨cutOff.take 5, .callback 0 false, ⟨[.callback 1 true], rfl⟩, .inr ⟨0, rfl, ?_, ?_, ?_⟩, ?_⟩ <;>
    decide

end Step

end Transport

end Phone
