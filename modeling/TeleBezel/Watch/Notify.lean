import Mathlib.Data.List.Perm.Subperm
import TeleBezel.Lib.Deadline
import TeleBezel.Watch.Format

/-!
# The notices of the watch

`notify.c` shows one notice above a view, and keeps the others below it. There is at most one of each
source, and there is room for all sources; so a post is never refused, and it never takes the place of
a notice of another source. The timer waits for the notice that expires first.

## Main results

* `post_spec`: a post is taken, and takes the place of none but the notice of its source.
* `waits_arm`: the timer runs out when the first notice expires, and not before.
* `notices_of_run`: what holds of the notices after any calls.
-/

open List

namespace Watch.Notices

/-- `expired`: the clock has reached the time of a notice, at most half its range ago. -/
def expired (current expires : ℕ) : Bool :=
  expires ≠ 0 && Deadline.passed current expires

/-- `TbNotify` with its focus, what its timer was last asked to wait, and what the clock read then. -/
structure TbNotices extends TbNotify where
  focused : Bool := false
  timer : Option ℕ := none
  armedAt : ℕ := 0

/-- What the clock of the ports tells a function, and then `arm`. -/
structure Clock where
  now : ℕ
  armed : ℕ

inductive NotifyCall
  | post (source : TbNotifySource) (level : TbNotifyLevel) (action : TbNotifyAction)
      (title body : CString)
  | clear (source : TbNotifySource)
  | dismiss
  | focus (focused : Bool)
  | timer
  | reset

/-- The loop of `top_index`. -/
def top (best : Option (ℕ × TbNotification)) : List (TbNotification × ℕ) → Option (ℕ × TbNotification)
  | [] => best
  | (item, index) :: rest =>
    if best.all fun best => best.2.level < item.level ||
        (item.level = best.2.level && best.2.serial < item.serial)
    then top (some (index, item)) rest else top best rest

namespace TbNotices

variable (notices : TbNotices) (clock : Clock)

/-- The times that the loop of `arm` goes through. -/
def times : List ℕ := (notices.items.map (·.expires)).filter (· ≠ 0)

def arm : TbNotices :=
  { notices with timer := Deadline.delay clock.armed notices.times, armedAt := clock.armed }

def changed : TbNotices :=
  { notices with focused := notices.focused && notices.items ≠ [] }.arm clock

def post (source : TbNotifySource) (level : TbNotifyLevel) (action : TbNotifyAction)
    (title body : CString) : TbNotices × Bool :=
  let posted := notices.toTbNotify.post source level action title body clock.now
  let after : TbNotices := { notices with toTbNotify := posted.1 }
  if notices.toTbNotify.writes source level action title body then (after.changed clock, posted.2)
  else if posted.2 then (after.arm clock, true)
  else (notices, false)

def without (removed : TbNotification → Bool) : TbNotices :=
  { notices with items := notices.items.filter fun item => !removed item }

def clear (source : TbNotifySource) : TbNotices :=
  if notices.items.any (·.source = source) then
    (notices.without (·.source = source)).changed clock
  else notices

def dismiss : TbNotices :=
  match top none notices.items.zipIdx with
  | none => notices
  | some (index, _) =>
    { notices with items := notices.items.eraseIdx index, focused := false }.changed clock

def focus (focused : Bool) : TbNotices :=
  { notices with focused := focused && notices.items ≠ [] }

def timerRan : TbNotices :=
  if notices.items.any fun item => expired clock.now item.expires then
    (notices.without fun item => expired clock.now item.expires).changed clock
  else notices.arm clock

def reset : TbNotices := { notices with items := [], focused := false, timer := none }

def step (notices : TbNotices) : Clock × NotifyCall → TbNotices
  | (clock, .post source level action title body) =>
    (notices.post clock source level action title body).1
  | (clock, .clear source) => notices.clear clock source
  | (clock, .dismiss) => notices.dismiss clock
  | (_, .focus focused) => notices.focus focused
  | (clock, .timer) => notices.timerRan clock
  | (_, .reset) => notices.reset

end TbNotices

section Post

variable {notify : TbNotify} {source : TbNotifySource} {level : TbNotifyLevel} {action : TbNotifyAction}
  {title body : CString} {now : ℕ}

theorem slotOf_cases (notify : TbNotify) (source : TbNotifySource) :
    (∃ slot existing, notify.slotOf source = some slot ∧ notify.items[slot]? = some existing ∧
      existing.source = source) ∨
    notify.slotOf source = none ∧ ∀ item ∈ notify.items, item.source ≠ source := by
  unfold TbNotify.slotOf
  cases hlast : (notify.items.zipIdx.filter fun item => item.1.source = source).getLast? with
  | none =>
    refine Or.inr ⟨rfl, fun item hitem hsource => ?_⟩
    rw [getLast?_eq_none_iff, filter_eq_nil_iff] at hlast
    obtain ⟨slot, hslot⟩ := mem_iff_getElem?.mp hitem
    exact hlast (item, slot) (mem_zipIdx_iff_getElem?.mpr hslot) (decide_eq_true hsource)
  | some found =>
    obtain ⟨hmem, hsource⟩ := mem_filter.mp (mem_of_getLast? hlast)
    exact Or.inl ⟨found.2, found.1, rfl, mem_zipIdx_iff_getElem?.mp hmem, of_decide_eq_true hsource⟩

theorem expiresAt_ne_zero_iff (level : TbNotifyLevel) (now : ℕ) :
    TbNotify.expiresAt level now ≠ 0 ↔ level = 0 := by
  unfold TbNotify.expiresAt
  split_ifs with hinfo hzero
  · exact iff_of_true Nat.one_ne_zero hinfo
  · exact iff_of_true hzero hinfo
  · exact iff_of_false (fun h => h rfl) hinfo

/-- The sources are different, and the notices that inform expire. -/
structure Apart (items : List TbNotification) : Prop where
  sources : (items.map (·.source)).Nodup
  expires : ∀ item ∈ items, item.expires ≠ 0 ↔ item.level = 0

theorem length_lt_of_apart {items : List TbNotification} (h : Apart items)
    (hnew : ∀ item ∈ items, item.source ≠ source) : items.length < tbNotifyCapacity := by
  -- the sources of the notices and the new one are different, and there are only three
  have hnodup : (source :: items.map (·.source)).Nodup := by
    refine nodup_cons.mpr ⟨fun hmem => ?_, h.sources⟩
    obtain ⟨item, hitem, heq⟩ := mem_map.mp hmem
    exact hnew item hitem heq
  have hall : source :: items.map (·.source) ⊆ [.connection, .chats, .send] :=
    fun source _ => by cases source <;> simp
  have hle := (subperm_of_subset hnodup hall).length_le
  rwa [length_cons, length_map] at hle

/-- What a list of notices becomes when one is posted: it is there, and so are those of other sources. -/
structure Takes (items : List TbNotification) (item : TbNotification) (items' : List TbNotification) :
    Prop extends Apart items' where
  mem : item ∈ items'
  others : ∀ other ∈ items, other.source ≠ item.source → other ∈ items'

theorem takes_set {items : List TbNotification} {item existing : TbNotification} {slot : ℕ}
    (h : Apart items) (hexisting : items[slot]? = some existing) (hsource : existing.source = item.source)
    (hexpires : item.expires ≠ 0 ↔ item.level = 0) : Takes items item (items.set slot item) := by
  obtain ⟨hslot, rfl⟩ := List.getElem?_eq_some_iff.mp hexisting
  refine ⟨⟨?_, fun other hother => ?_⟩, mem_set hslot _, fun other hother hne => ?_⟩
  · have hlt : slot < (items.map (·.source)).length := by rwa [length_map]
    have hsame : item.source = (items.map (·.source))[slot] := by rw [getElem_map, hsource]
    rw [map_set, hsame, set_getElem_self]
    exact h.sources
  · rcases mem_or_eq_of_mem_set hother with hother | rfl
    · exact h.expires other hother
    · exact hexpires
  · obtain ⟨place, hplace⟩ := mem_iff_getElem?.mp hother
    have hplaces : slot ≠ place := by
      rintro rfl
      rw [hexisting] at hplace
      obtain rfl := Option.some.inj hplace
      exact hne hsource
    exact mem_of_getElem? (by rw [getElem?_set_ne hplaces, hplace])

theorem takes_snoc {items : List TbNotification} {item : TbNotification} (h : Apart items)
    (hnew : ∀ other ∈ items, other.source ≠ item.source)
    (hexpires : item.expires ≠ 0 ↔ item.level = 0) : Takes items item (items ++ [item]) := by
  refine ⟨⟨?_, ?_⟩, by simp, fun other hother _ => mem_append_left _ hother⟩
  · rw [map_append, nodup_append]
    refine ⟨h.sources, pairwise_singleton _ _, ?_⟩
    rintro _ hold _ hlast rfl
    obtain ⟨other, hother, heq⟩ := mem_map.mp hold
    exact hnew other hother (heq.trans (mem_singleton.mp hlast))
  · exact forall_mem_append.mpr ⟨h.expires, forall_mem_singleton.mpr hexpires⟩

/-- **A post is taken**, and the notice of its source is the only one that it may take the place of. -/
theorem post_spec (h : Apart notify.items) :
    ∃ item : TbNotification, (item.source = source ∧ item.level = level ∧ item.action = action) ∧
      (notify.post source level action title body now).2 = true ∧
      Takes notify.items item (notify.post source level action title body now).1.items := by
  have hexpires := expiresAt_ne_zero_iff level now
  let item : TbNotification :=
    { source, level, action
      serial := (notify.serial + 1) % 2 ^ 32
      expires := TbNotify.expiresAt level now
      title := snprintf tbNotifyTitleSize title
      body := snprintf tbNotifyBodySize body }
  unfold TbNotify.post
  rcases slotOf_cases notify source with ⟨slot, existing, hslot, hexisting, hsource⟩ | ⟨hslot, hnew⟩
  · -- the source has a slot: it is written again, or the same notice is kept and expires later
    rw [hslot]
    dsimp only
    rw [hexisting]
    dsimp only
    split_ifs with hsame
    · simp only [TbNotify.same, Bool.and_eq_true, decide_eq_true_eq] at hsame
      obtain ⟨⟨⟨rfl, haction⟩, -⟩, -⟩ := hsame
      exact ⟨{ existing with expires := TbNotify.expiresAt existing.level now }, ⟨hsource, rfl, haction⟩, rfl,
        takes_set h hexisting rfl hexpires⟩
    · have hwrite : (notify.write source level action title body now slot).items =
          notify.items.set slot item := by
        rw [set_eq_take_append_cons_drop, if_pos (List.getElem?_eq_some_iff.mp hexisting).1]
        rfl
      refine ⟨item, ⟨rfl, rfl, rfl⟩, rfl, ?_⟩
      rw [hwrite]
      exact takes_set h hexisting hsource hexpires
  · -- the source is new, so that nothing has to make room for it
    rw [hslot]
    dsimp only
    rw [if_pos (length_lt_of_apart h hnew)]
    have hwrite : (notify.write source level action title body now notify.items.length).items =
        notify.items ++ [item] := by
      simp [TbNotify.write, item]
    refine ⟨item, ⟨rfl, rfl, rfl⟩, rfl, ?_⟩
    rw [hwrite]
    exact takes_snoc h hnew hexpires

end Post

/-! ### The timer -/

/-- The timer is off if no notice expires; else it runs out when the first one does, since it was armed,
but after a millisecond at least. -/
def Waits (notices : TbNotices) : Prop :=
  match notices.timer with
  | none => ∀ item ∈ notices.items, item.expires = 0
  | some delay => ∃ first, delay = max 1 first ∧
      (∃ item ∈ notices.items, expired (notices.armedAt + first) item.expires = true) ∧
      ∀ earlier < first, ∀ item ∈ notices.items,
        expired (notices.armedAt + earlier) item.expires = false

theorem waits_arm (notices : TbNotices) (clock : Clock) : Waits (notices.arm clock) := by
  have hmem : ∀ {item}, item ∈ notices.items → item.expires ≠ 0 → item.expires ∈ notices.times :=
    fun hitem hzero => mem_filter.mpr ⟨mem_map_of_mem hitem, by simpa using hzero⟩
  have hexpired : ∀ {now expires}, expires ≠ 0 → expired now expires = Deadline.passed now expires :=
    fun hzero => by simp [expired, hzero]
  have htimer : (notices.arm clock).timer = Deadline.delay clock.armed notices.times := rfl
  obtain ⟨hoff, hon⟩ := Deadline.delay_spec clock.armed notices.times
  rw [Waits, htimer]
  cases hdelay : Deadline.delay clock.armed notices.times with
  | none =>
    intro item hitem
    by_contra hzero
    exact absurd (hoff.mp hdelay ▸ hmem hitem hzero) not_mem_nil
  | some delay =>
    obtain ⟨time, htime, hlength, hleast⟩ := hon delay hdelay
    obtain ⟨htime, hset⟩ := mem_filter.mp htime
    obtain ⟨item, hitem, rfl⟩ := mem_map.mp htime
    refine ⟨_, hlength, ⟨item, hitem, ?_⟩, fun earlier hlt other hother => ?_⟩
    · rw [hexpired (by simpa using hset)]
      exact (Deadline.passed_add_iff le_rfl).mpr rfl
    · by_cases hzero : other.expires = 0
      · rw [expired, hzero]
        rfl
      · have hle := hleast _ (hmem hother hzero)
        rw [hexpired hzero]
        refine Bool.eq_false_iff.mpr fun hpassed => ?_
        have hthis := (Deadline.passed_add_iff (hlt.le.trans hle)).mp hpassed
        omega

/-- What holds of the notices in every state. -/
structure Orderly (notices : TbNotices) : Prop extends Apart notices.items where
  focused : notices.focused = true → notices.items ≠ []
  timer : Waits notices

variable {notices : TbNotices} {clock : Clock}

theorem orderly_changed (h : Apart notices.items) : Orderly (notices.changed clock) :=
  ⟨h, fun hfocused => of_decide_eq_true (Bool.and_eq_true_iff.mp hfocused).2, waits_arm _ _⟩

theorem Apart.sublist {items items' : List TbNotification} (h : Apart items) (hsub : items' <+ items) :
    Apart items' :=
  ⟨h.sources.sublist (hsub.map _), fun item hitem => h.expires item (hsub.subset hitem)⟩

theorem Orderly.post (h : Orderly notices) (source : TbNotifySource) (level : TbNotifyLevel)
    (action : TbNotifyAction) (title body : CString) :
    let posted := notices.post clock source level action title body
    Orderly posted.1 ∧ posted.2 = true ∧
      (∃ item ∈ posted.1.items, item.source = source ∧ item.level = level ∧ item.action = action) ∧
      ∀ item ∈ notices.items, item.source ≠ source → item ∈ posted.1.items := by
  obtain ⟨item, ⟨rfl, rfl, rfl⟩, htaken, htakes⟩ :=
    @post_spec notices.toTbNotify source level action title body clock.now h.toApart
  unfold TbNotices.post
  dsimp only
  rw [htaken]
  split_ifs
  · exact ⟨orderly_changed htakes.toApart, rfl, ⟨item, htakes.mem, rfl, rfl, rfl⟩, htakes.others⟩
  · exact ⟨⟨htakes.toApart, fun _ => ne_nil_of_mem htakes.mem, waits_arm _ _⟩, rfl,
      ⟨item, htakes.mem, rfl, rfl, rfl⟩, htakes.others⟩
  · contradiction

theorem not_expired_timerRan (notices : TbNotices) (clock : Clock) :
    ∀ item ∈ (notices.timerRan clock).items, expired clock.now item.expires = false := by
  intro item hitem
  unfold TbNotices.timerRan at hitem
  split_ifs at hitem with hany
  · simpa using (mem_filter.mp hitem).2
  · rw [Bool.not_eq_true, any_eq_false] at hany
    exact Bool.eq_false_iff.mpr (hany item hitem)

theorem Orderly.step (h : Orderly notices) (call : Clock × NotifyCall) : Orderly (notices.step call) := by
  obtain ⟨clock, call⟩ := call
  cases call with
  | post source level action title body => exact (h.post source level action title body).1
  | clear source =>
    simp only [TbNotices.step, TbNotices.clear]
    split_ifs
    · exact orderly_changed (h.sublist filter_sublist)
    · exact h
  | dismiss =>
    simp only [TbNotices.step, TbNotices.dismiss]
    split
    · exact h
    · exact orderly_changed (h.sublist (eraseIdx_sublist _ _))
  | focus focused =>
    exact ⟨h.toApart, fun hfocused => of_decide_eq_true (Bool.and_eq_true_iff.mp hfocused).2, h.timer⟩
  | timer =>
    simp only [TbNotices.step, TbNotices.timerRan]
    split_ifs
    · exact orderly_changed (h.sublist filter_sublist)
    · exact ⟨h.toApart, h.focused, waits_arm _ _⟩
  | reset => exact ⟨⟨nodup_nil, forall_mem_nil _⟩, Bool.noConfusion, forall_mem_nil _⟩

/-- **The notices of every run.** There is at most one of each source, and exactly those that inform
expire; the focus is on a notice that is there; and the timer runs out when the first of them expires.
From every state a post is taken and displaces no notice of another source,
and after the timer ran no notice is left that has expired. -/
theorem notices_of_run (calls : List (Clock × NotifyCall)) :
    let notices := calls.foldl TbNotices.step {}
    Orderly notices ∧
      (∀ clock source level action title body,
        let posted := notices.post clock source level action title body
        posted.2 = true ∧
          (∃ item ∈ posted.1.items, item.source = source ∧ item.level = level ∧ item.action = action) ∧
          ∀ item ∈ notices.items, item.source ≠ source → item ∈ posted.1.items) ∧
      ∀ clock, ∀ item ∈ (notices.timerRan clock).items, expired clock.now item.expires = false := by
  intro notices
  have horderly : Orderly notices := by
    apply foldlRecOn calls TbNotices.step
    · exact ⟨⟨nodup_nil, forall_mem_nil _⟩, Bool.noConfusion, forall_mem_nil _⟩
    · exact fun _ h call _ => h.step call
  exact ⟨horderly, fun clock source level action title body =>
    (horderly.post source level action title body).2, not_expired_timerRan notices⟩

end Watch.Notices
