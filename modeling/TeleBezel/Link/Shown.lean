import TeleBezel.Lib.Transition
import TeleBezel.Link.Gapless

/-!
# What is shown of a chat has no gaps

The watch judges by the number of records of a page whether there may be messages between the page and
what it shows. The phone makes one record of an album, so that a page that is full comes with fewer
records than a full page has: the watch then takes it for one that goes on where it stopped, and
messages are missing while `truncated` is false.
-/

open List

namespace Link

open Phone Watch Block Transition

/-- The chat as the service has it, the cursor of the phone, the history of the watch, and the number
of the newest message of the last page of the newest messages. -/
structure View where
  chat : List Message := []
  cursor : HistoryCursor := {}
  history : TbHistory := {}
  horizon : ℕ := 0

/-- Everything that can happen: a message arrives, the phone forgets its cursor (it is started anew, or
a request fails), or a page of the newest or of older messages is read, with as many messages as the
service gives and a cursor or none. -/
inductive ViewEvent
  | arrive (message : Message)
  | forget
  | newest (first : Bool) (count : ℕ) (more : Bool)
  | older (count : ℕ) (more : Bool)

def newestId (chat : List Message) : ℕ := chat.getLast?.elim 0 Message.id

namespace View

def records (page : List Message) : List TbMessageRecord := (group page).map messageRecord

variable (config : TbHistoryConfig)

def newest (s : View) (first : Bool) (count : ℕ) (more : Bool) : View :=
  let page := pageOf s.chat none (min count (pageBound config.pageLimit))
  let op := if first then TbHistoryOp.first else .refresh
  { s with
    cursor := s.cursor.read op
      (if more then some (page.getLast?.elim (newestId s.chat + 1) Message.id) else none)
    history := s.history.finish config op (records page)
    horizon := match page.head? with
      | some message => message.id
      -- without a message there is nothing newer to show, unless nothing is shown
      | none => if first ∨ s.history.items = [] then newestId s.chat else s.horizon }

def older (s : View) (count : ℕ) (more : Bool) : View :=
  match s.cursor.next with
  | none => s
  | some bound =>
    let page := pageOf s.chat (some bound) (min count (pageBound config.pageLimit))
    { s with
      cursor := s.cursor.read .older
        (if more then some (page.getLast?.elim bound Message.id) else none)
      history := s.history.finish config .older (records page) }

def step (s : View) : ViewEvent → View
  | .arrive message =>
    if newestId s.chat < message.id ∧ message.id < 2 ^ 63 - 1 then
      { s with chat := s.chat ++ [message] }
    else s
  | .forget => { s with cursor := {} }
  | .newest first count more => s.newest config first count more
  | .older count more => s.older config count more

def received (s : View) : List Message := s.chat.filter fun message => message.id ≤ s.horizon

end View

/-- An item stands for a message: it is the message, or one of its album with all between. -/
def Represented (s : View) (message : Message) : Prop :=
  ∃ item ∈ s.history.items, Together s.received message.id item.key

/-- What is shown is the end of what was received, without a gap. -/
def Contiguous (s : View) : Prop :=
  ∃ before shown, s.received = before ++ shown ∧ (∀ m ∈ before, ¬ Represented s m) ∧
    (∀ m ∈ shown, Represented s m) ∧ ∀ item ∈ s.history.items, ∃ m ∈ shown, m.id = item.key

/-- The condition on a page. A page of the newest messages with fewer records than asked for leaves
out no message between it and the newest that is shown, apart from its album; and where nothing is
shown, it leaves out none from the cursor on. -/
def Adjoins (config : TbHistoryConfig) (s : View) : ViewEvent → Prop
  | .newest false count _ =>
    let page := pageOf s.chat none (min count (pageBound config.pageLimit))
    match s.history.items.getLast? with
    | some newest => page ≠ [] → (group page).length < config.pageLimit →
        ∀ m ∈ s.chat, newest.key < m.id → m ∉ page → Together s.chat m.id newest.key
    | none => s.cursor.older = true → ∀ bound, s.cursor.next = some bound →
        ∀ m ∈ s.chat, bound ≤ m.id → m ∈ page
  | _ => True

structure Whole (s : View) : Prop where
  gapless : Gapless s.chat s.horizon s.history.items
  reaches : ∀ bound, s.cursor.next = some bound → Reaches s.chat s.horizon s.history.items bound

structure Sound (s : View) : Prop where
  order : Ordered s.chat
  bounded : ∀ m ∈ s.chat, m.id < 2 ^ 63 - 1
  horizon : s.horizon ≤ newestId s.chat
  next : ∀ bound, s.cursor.next = some bound → bound ≤ newestId s.chat + 1
  whole : s.history.truncated = false → Whole s

section Step

variable {config : TbHistoryConfig} {s : View} {chat : List Message}

theorem le_newestId (hchat : Ordered chat) {x : Message} (hx : x ∈ chat) : x.id ≤ newestId chat := by
  cases hlast : chat.getLast? with
  | none =>
    rw [List.getLast?_eq_none_iff.mp hlast] at hx
    exact absurd hx not_mem_nil
  | some last =>
    obtain ⟨rest, rfl⟩ := List.getLast?_eq_some_iff.mp hlast
    rw [newestId, hlast]
    rcases mem_append.mp hx with hold | hone
    · exact ((pairwise_append.mp hchat).2.2 x hold last (mem_singleton_self _)).le
    · rw [mem_singleton.mp hone]
      exact le_rfl

theorem le_head_page (hchat : Ordered chat) {n : ℕ} {head : Message}
    (hhead : head ∈ (pageOf chat none n).head?) {x : Message} (hx : x ∈ chat) : x.id ≤ head.id := by
  by_contra hnot
  have hmem : head ∈ pageOf chat none n := mem_of_mem_head? hhead
  have hpage := mem_pageOf hchat hx rfl hmem (not_le.mp hnot).le
  have horder := (stretch_pageOf hchat none n).order
  cases hlist : pageOf chat none n with
  | nil =>
    rw [hlist] at hpage
    exact absurd hpage not_mem_nil
  | cons first rest =>
    rw [hlist] at hhead hpage horder
    obtain rfl : first = head := Option.some.inj hhead
    rcases mem_cons.mp hpage with rfl | hlater
    · exact hnot le_rfl
    · exact hnot ((pairwise_cons.mp horder).1 x hlater).le

variable {history : TbHistory}

theorem finish_eq {merged : TbHistory} {op : TbHistoryOp} {records : List TbMessageRecord}
    (hmerged : merged = match op with
      | .older => history.prependStaging config (stagingOf config records)
      | .first => history.mergeNewest config (stagingOf config records) true
      | .refresh => history.mergeNewest config (stagingOf config records) false)
    (h : (history.finish config op records).truncated = false) :
    merged.truncated = false ∧
      (history.finish config op records).items = mergeAlbums merged.items := by
  have hfinish : history.finish config op records =
      { merged.evictNewest config with
        items := mergeAlbums (merged.evictNewest config).items } := by
    rw [hmerged]
    rfl
  rw [hfinish] at h ⊢
  have heq := evictNewest_eq h
  rw [heq] at h ⊢
  exact ⟨h, rfl⟩

variable {staging : List TbMessage}

theorem Staged.eq_nil (h : Staged chat [] staging) : staging = [] := by
  refine eq_nil_iff_forall_not_mem.mpr fun item hitem => ?_
  obtain ⟨x, hx, -⟩ := h.mem item hitem
  exact absurd hx not_mem_nil

theorem gapless_fresh (hchat : Ordered chat) {n horizon : ℕ}
    (hstaged : Staged chat (pageOf chat none n) staging)
    (hhorizon : ∀ head ∈ (pageOf chat none n).head?, head.id = horizon) :
    Gapless chat horizon staging := by
  refine gapless_page hchat hstaged fun x hx => ?_
  cases hhead : (pageOf chat none n).head? with
  | none =>
    rw [List.head?_eq_none_iff.mp hhead] at hx
    exact absurd hx not_mem_nil
  | some head =>
    rw [← hhorizon head hhead]
    exact le_head_page hchat hhead ((stretch_pageOf hchat none n).mem x hx)

theorem reaches_fresh (hchat : Ordered chat) {n horizon : ℕ}
    (hstaged : Staged chat (pageOf chat none n) staging)
    (hhorizon : pageOf chat none n = [] → horizon = newestId chat) :
    Reaches chat horizon staging
      ((pageOf chat none n).getLast?.elim (newestId chat + 1) Message.id) := by
  cases hlast : (pageOf chat none n).getLast? with
  | none =>
    have hempty := List.getLast?_eq_none_iff.mp hlast
    rw [hempty] at hstaged
    rw [hstaged.eq_nil, hhorizon hempty]
    exact fun m _ => Iff.rfl
  | some last =>
    have horder : ([] ++ staging).Pairwise fun a b : TbMessage => a.key < b.key := hstaged.order
    exact reaches_page hchat hstaged horder (mem_of_getLast? hlast)

theorem reaches_held (hchat : Ordered chat) {n horizon bound : ℕ}
    (hstaged : Staged chat (pageOf chat none n) staging)
    (hhorizon : pageOf chat none n = [] → horizon = newestId chat)
    (hall : ∀ m ∈ chat, bound ≤ m.id → m ∈ pageOf chat none n) :
    Reaches chat horizon staging bound := by
  unfold Reaches
  cases hhead : staging.head? with
  | none =>
    have hempty : pageOf chat none n = [] := by
      refine eq_nil_iff_forall_not_mem.mpr fun x hx => ?_
      obtain ⟨item, hitem, -⟩ := hstaged.covers x hx
      rw [List.head?_eq_none_iff.mp hhead] at hitem
      exact absurd hitem not_mem_nil
    intro m hm
    rw [hempty] at hall
    constructor
    · exact fun hbound => absurd (hall m hm hbound) not_mem_nil
    · intro hlt
      rw [hhorizon hempty] at hlt
      exact absurd (le_newestId hchat hm) (not_le.mpr hlt)
  | some first =>
    intro m hm hbound hlt
    obtain ⟨item, hitem, htogether⟩ := hstaged.covers m (hall m hm hbound)
    exact together_head hstaged.order hhead hitem htogether hlt.le

theorem truncated_mergeNewest (hshown : history.items ≠ [])
    (h : (history.mergeNewest config staging false).truncated = false) :
    history.truncated = false := by
  unfold TbHistory.mergeNewest at h
  rw [List.getLast?_eq_some_getLast hshown] at h
  cases hsmallest : staging.head? with
  | none =>
    rw [hsmallest] at h
    exact h
  | some smallest =>
    rw [hsmallest] at h
    dsimp only at h
    generalize (if smallest.key ≤ (history.items.getLast hshown).key then
      keptBefore smallest.key history.items else history.items) = kept at h
    split at h
    · exact absurd h (by simp)
    · exact h

theorem mergeNewest_spec
    {newest smallest : TbMessage} (horder : history.items.Pairwise fun a b => a.key < b.key)
    (hstaging : staging.Pairwise fun a b => a.key < b.key)
    (hnewest : history.items.getLast? = some newest) (hsmallest : staging.head? = some smallest)
    (h : (history.mergeNewest config staging false).truncated = false) :
    ∃ kept dropped, history.items = kept ++ dropped ∧
      (∀ item ∈ kept, item.key < smallest.key) ∧ (∀ item ∈ dropped, smallest.key ≤ item.key) ∧
      (history.mergeNewest config staging false).items = kept ++ staging ∧
      (smallest.key ≤ newest.key ∨ staging.length < config.pageLimit) := by
  unfold TbHistory.mergeNewest at h ⊢
  rw [hnewest, hsmallest] at h ⊢
  dsimp only at h ⊢
  -- the items before the page
  obtain ⟨kept, dropped, hitems, hkept, hdropped, hsame⟩ : ∃ kept dropped,
      history.items = kept ++ dropped ∧ (∀ item ∈ kept, item.key < smallest.key) ∧
      (∀ item ∈ dropped, smallest.key ≤ item.key) ∧
      (if smallest.key ≤ newest.key then keptBefore smallest.key history.items
        else history.items) = kept := by
    by_cases hover : smallest.key ≤ newest.key
    · obtain ⟨dropped, hitems, hdropped, hkept⟩ := keptBefore_spec horder smallest.key
      exact ⟨_, dropped, hitems, hkept, hdropped, if_pos hover⟩
    · refine ⟨history.items, [], (append_nil _).symm, ?_, nofun, if_neg hover⟩
      intro item hitem
      obtain ⟨rest, hrest⟩ := List.getLast?_eq_some_iff.mp hnewest
      rw [hrest] at hitem horder
      rcases mem_append.mp hitem with hold | hone
      · have hlt := (pairwise_append.mp horder).2.2 item hold newest
          (mem_singleton_self _)
        exact hlt.trans (not_le.mp hover)
      · rw [mem_singleton.mp hone]
        exact not_le.mp hover
  rw [hsame] at h ⊢
  split at h
  · exact absurd h (by simp)
  next hmerged =>
  rw [if_neg hmerged]
  rw [not_or, not_not] at hmerged
  obtain ⟨hcontiguous, hroom⟩ := hmerged
  simp only [overLimits, Bool.or_eq_true, decide_eq_true_eq, not_or, not_lt] at hroom
  refine ⟨kept, dropped, hitems, hkept, hdropped, ?_, hcontiguous⟩
  refine appendStaging_eq ?_ hroom.1
  rw [hitems] at horder
  refine pairwise_append.mpr ⟨(pairwise_append.mp horder).1, hstaging, ?_⟩
  intro item hitem new hnew
  exact (hkept item hitem).trans_le (head_le hstaging hsmallest hnew)

theorem Whole.of_mergeAlbums {merged : List TbMessage} {horizon : ℕ} (hchat : Ordered s.chat)
    (hitems : s.history.items = mergeAlbums merged) (hhorizon : s.horizon = horizon)
    (hgapless : Gapless s.chat horizon merged)
    (hreaches : ∀ bound, s.cursor.next = some bound → Reaches s.chat horizon merged bound) :
    Whole s where
  gapless := by
    rw [hitems, hhorizon]
    exact hgapless.mergeAlbums hchat
  reaches := by
    intro bound hbound
    rw [hitems, hhorizon]
    exact (hreaches bound hbound).mergeAlbums hchat hgapless

variable (hpage : 1 ≤ config.pageLimit) (hcapacity : config.pageLimit ≤ config.capacity)

include hpage in
theorem staged_page (hchat : Ordered chat) (cursor : Option ℕ) (count : ℕ) :
    let page := pageOf chat cursor (min count (pageBound config.pageLimit))
    Staged chat page (stagingOf config (View.records page)) ∧
      (stagingOf config (View.records page)).length = (group page).length ∧
      (group page).length ≤ config.pageLimit := by
  intro page
  have hstretch : Stretch chat page := stretch_pageOf hchat _ _
  have hlength : page.length ≤ config.pageLimit := by
    have htake : page.length ≤ min count (pageBound config.pageLimit) := length_take_le _ _
    unfold pageBound at htake
    omega
  obtain ⟨hstaged, hsame⟩ := staged_stagingOf config hstretch hlength
  exact ⟨hstaged, hsame, (length_group_le hstretch).trans hlength⟩

theorem next_newest (first : Bool) (count : ℕ) (more : Bool) {bound : ℕ}
    (h : (s.newest config first count more).cursor.next = some bound) :
    bound = (pageOf s.chat none (min count (pageBound config.pageLimit))).getLast?.elim
        (newestId s.chat + 1) Message.id ∨
      first = false ∧ s.cursor.older = true ∧ s.cursor.next = some bound := by
  have hmore : ∀ value : ℕ, (if more = true then some value else none) = some bound →
      bound = value := by
    intro value h
    split at h
    · exact (Option.some.inj h).symm
    · exact absurd h (by simp)
  unfold View.newest HistoryCursor.read at h
  cases first with
  | true => exact Or.inl (hmore _ h)
  | false =>
    by_cases holder : s.cursor.older = true
    · simp only [Bool.false_eq_true, if_false, holder, if_true] at h
      exact Or.inr ⟨rfl, holder, h⟩
    · simp only [Bool.false_eq_true, if_false, holder] at h
      exact Or.inl (hmore _ h)

include hpage hcapacity in
theorem shown_fresh (h : Sound s) (first : Bool) (count : ℕ) (more : Bool)
    (hadjoins : Adjoins config s (.newest first count more))
    (hfresh : first = true ∨ s.history.items = [])
    (htruncated : (s.newest config first count more).history.truncated = false) :
    Whole (s.newest config first count more) := by
  obtain ⟨hstaged, hlength, hlimit⟩ := staged_page hpage h.order none count
  set page := pageOf s.chat none (min count (pageBound config.pageLimit)) with hpageOf
  have hall : appendStaging config [] (stagingOf config (View.records page)) =
      stagingOf config (View.records page) :=
    appendStaging_eq hstaged.order (by simp only [length_nil]; omega)
  -- what is shown is the page
  have hmerged : s.history.mergeNewest config (stagingOf config (View.records page)) first =
      { items := stagingOf config (View.records page), truncated := false } := by
    unfold TbHistory.mergeNewest
    rw [hall]
    rcases hfresh with rfl | hnone
    · cases s.history.items.getLast? with
      | none => rfl
      | some newest => rfl
    · rw [hnone]
      rfl
  have hitems : (s.newest config first count more).history.items =
      mergeAlbums (stagingOf config (View.records page)) := by
    cases first with
    | true | false => exact (finish_eq hmerged.symm htruncated).2
  have hhead : ∀ head ∈ page.head?, head.id = (s.newest config first count more).horizon := by
    intro head hhead
    unfold View.newest
    dsimp only
    rw [← hpageOf, show page.head? = some head from hhead]
  have hempty : page = [] → (s.newest config first count more).horizon = newestId s.chat := by
    intro hnone
    unfold View.newest
    rw [← hpageOf, hnone]
    exact if_pos hfresh
  refine Whole.of_mergeAlbums h.order hitems rfl (gapless_fresh h.order hstaged hhead) ?_
  intro bound hbound
  rcases next_newest first count more hbound with rfl | ⟨rfl, holder, hnext⟩
  · exact reaches_fresh h.order hstaged hempty
  · -- the cursor stays, and nothing was shown
    have hnone : s.history.items.getLast? = none := by
      rw [hfresh.resolve_left Bool.false_ne_true]
      rfl
    unfold Adjoins at hadjoins
    rw [hnone] at hadjoins
    exact reaches_held h.order hstaged hempty (hadjoins holder bound hnext)

theorem shown_empty (h : Sound s) (count : ℕ) (more : Bool) (hshown : s.history.items ≠ [])
    (hnone : pageOf s.chat none (min count (pageBound config.pageLimit)) = [])
    (htruncated : (s.newest config false count more).history.truncated = false) :
    Whole (s.newest config false count more) := by
  obtain ⟨newest, hnewest⟩ : ∃ newest, s.history.items.getLast? = some newest :=
    ⟨_, List.getLast?_eq_some_getLast hshown⟩
  have hmerged : s.history = s.history.mergeNewest config
      (stagingOf config (View.records (pageOf s.chat none
        (min count (pageBound config.pageLimit))))) false := by
    have hstaging : stagingOf config (View.records []) = [] := by
      simp [stagingOf, View.records, group]
    rw [hnone, hstaging]
    unfold TbHistory.mergeNewest
    rw [hnewest]
    rfl
  obtain ⟨hwhole, hitems⟩ := finish_eq hmerged htruncated
  have hhorizon : (s.newest config false count more).horizon = s.horizon := by
    unfold View.newest
    rw [hnone]
    exact if_neg (by simp [hshown])
  refine Whole.of_mergeAlbums h.order hitems hhorizon (h.whole hwhole).gapless ?_
  intro bound hbound
  rcases next_newest false count more hbound with rfl | ⟨-, -, hnext⟩
  · -- no message is as new as this cursor
    rw [hnone]
    unfold Reaches
    cases hhead : s.history.items.head? with
    | none => exact absurd (List.head?_eq_none_iff.mp hhead) hshown
    | some first =>
      intro m hm hbound _
      exact absurd (le_newestId h.order hm) (not_le.mpr hbound)
  · exact (h.whole hwhole).reaches bound hnext

include hpage in
theorem shown_refresh (h : Sound s) (count : ℕ) (more : Bool)
    (hadjoins : Adjoins config s (.newest false count more)) (hshown : s.history.items ≠ [])
    (htruncated : (s.newest config false count more).history.truncated = false) :
    Whole (s.newest config false count more) := by
  obtain ⟨hstaged, hlength, -⟩ := staged_page hpage h.order none count
  cases hhead : (pageOf s.chat none (min count (pageBound config.pageLimit))).head? with
  | none => exact shown_empty h count more hshown (List.head?_eq_none_iff.mp hhead) htruncated
  | some head =>
  have hne : pageOf s.chat none (min count (pageBound config.pageLimit)) ≠ [] := by
    intro hnone
    rw [hnone] at hhead
    exact absurd hhead (by simp)
  obtain ⟨newest, hnewest⟩ : ∃ newest, s.history.items.getLast? = some newest :=
    ⟨_, List.getLast?_eq_some_getLast hshown⟩
  obtain ⟨smallest, hsmallest⟩ : ∃ smallest, (stagingOf config (View.records (pageOf s.chat none
      (min count (pageBound config.pageLimit))))).head? = some smallest := by
    obtain ⟨item, hitem, -⟩ := hstaged.covers head (mem_of_mem_head? hhead)
    exact ⟨_, List.head?_eq_some_head (ne_nil_of_mem hitem)⟩
  obtain ⟨hmerged, hitems⟩ := finish_eq rfl htruncated
  have hwhole := truncated_mergeNewest hshown hmerged
  have hgapless := (h.whole hwhole).gapless
  obtain ⟨kept, dropped, hsplit, hkept, hdropped, hboth, hcontiguous⟩ :=
    mergeNewest_spec hgapless.order hstaged.order hnewest hsmallest hmerged
  have hhorizon : (s.newest config false count more).horizon = head.id := by
    unfold View.newest
    dsimp only
    rw [hhead]
  have hsame : (s.newest config false count more).history.items = mergeAlbums (kept ++
      stagingOf config (View.records (pageOf s.chat none
        (min count (pageBound config.pageLimit))))) := by
    rw [← hboth]
    exact hitems
  -- what is newer than all that is shown is in the page, or in the block of the newest item
  have hbetween : ∀ first ∈ s.history.items.head?, ∀ m ∈ s.chat, first.key ≤ m.id →
      m ∉ pageOf s.chat none (min count (pageBound config.pageLimit)) →
      ∃ item ∈ s.history.items, Together s.chat m.id item.key := by
    intro first hfirst m hm hge hout
    by_cases hold : m.id ≤ s.horizon
    · exact hgapless.covers first hfirst m hm hge hold
    have hmem := mem_of_getLast? hnewest
    have hlt : newest.key < m.id := (hgapless.mem newest hmem).1.trans_lt (not_le.mp hold)
    rcases hcontiguous with hover | hshort
    · obtain ⟨low, hlow, hid, -⟩ := hstaged.mem smallest (mem_of_mem_head? hsmallest)
      refine absurd (mem_pageOf h.order hm rfl hlow ?_) hout
      rw [hid]
      exact hover.trans hlt.le
    · unfold Adjoins at hadjoins
      rw [hnewest] at hadjoins
      rw [hlength] at hshort
      exact ⟨newest, hmem, hadjoins hne hshort m hm hlt hout⟩
  rw [hsplit] at hbetween
  have hgapless' := hgapless
  rw [hsplit] at hgapless'
  have hafter := hgapless'.append h.order hstaged (fun x hx => le_head_page h.order hhead hx)
    hsmallest hkept hdropped hbetween
  refine Whole.of_mergeAlbums h.order hsame hhorizon hafter ?_
  intro bound hbound
  rcases next_newest false count more hbound with rfl | ⟨-, -, hnext⟩
  · rw [List.getLast?_eq_some_getLast hne]
    exact reaches_page h.order hstaged hafter.order (getLast_mem hne)
  · have hreaches := (h.whole hwhole).reaches bound hnext
    rw [hsplit] at hreaches hshown
    exact hreaches.append hshown hsmallest hdropped

theorem prependStaging_spec (hroom : staging.length ≤ config.capacity)
    (h : (history.prependStaging config staging).truncated = false) :
    history.truncated = false ∧ (history.prependStaging config staging).items =
      accepted history.items staging ++ history.items := by
  have htake : (accepted history.items staging).take config.capacity =
      accepted history.items staging :=
    take_of_length_le ((length_filter_le _ _).trans hroom)
  have hprepend : history.prependStaging config staging =
      if accepted history.items staging = [] then history
      else
        { items := accepted history.items staging ++
            history.items.take (config.capacity - (accepted history.items staging).length)
          truncated := history.truncated ||
            config.capacity - (accepted history.items staging).length < history.items.length } := by
    rw [← htake]
    rfl
  rw [hprepend] at h ⊢
  by_cases hnone : accepted history.items staging = []
  · rw [if_pos hnone] at h ⊢
    exact ⟨h, by rw [hnone, nil_append]⟩
  · rw [if_neg hnone] at h ⊢
    simp only [Bool.or_eq_false_iff, decide_eq_false_iff_not, not_lt] at h
    exact ⟨h.1, by rw [take_of_length_le h.2]⟩

include hpage hcapacity in
theorem shown_older (h : Sound s) (count : ℕ) (more : Bool)
    (htruncated : (s.older config count more).history.truncated = false) :
    Whole (s.older config count more) := by
  cases hnext : s.cursor.next with
  | none =>
    have hsame : s.older config count more = s := by
      unfold View.older
      rw [hnext]
    rw [hsame] at htruncated ⊢
    exact h.whole htruncated
  | some bound =>
    have hsome : s.older config count more = { s with
        cursor := s.cursor.read .older (if more then some ((pageOf s.chat (some bound)
          (min count (pageBound config.pageLimit))).getLast?.elim bound Message.id) else none)
        history := s.history.finish config .older (View.records (pageOf s.chat (some bound)
          (min count (pageBound config.pageLimit)))) } := by
      unfold View.older
      rw [hnext]
    rw [hsome] at htruncated ⊢
    obtain ⟨hstaged, hlength, hlimit⟩ := staged_page hpage h.order (some bound) count
    obtain ⟨hmerged, hitems⟩ := finish_eq rfl htruncated
    have hroom := hlength.le.trans (hlimit.trans hcapacity)
    obtain ⟨hwhole, hboth⟩ := prependStaging_spec hroom hmerged
    have hgapless := (h.whole hwhole).gapless
    have hreaches := (h.whole hwhole).reaches bound hnext
    rw [hboth] at hitems
    refine Whole.of_mergeAlbums h.order hitems rfl
      (hgapless.prepend h.order h.bounded hreaches hstaged) ?_
    intro bound' hbound'
    cases more with
    | false => exact absurd hbound' (by simp [HistoryCursor.read])
    | true =>
      obtain rfl := Option.some.inj hbound'
      exact Reaches.prepend h.order h.bounded hgapless hreaches hstaged

theorem Gapless.arrive {horizon : ℕ} {items : List TbMessage} {message : Message}
    (h : Gapless chat horizon items) (hnew : horizon < message.id) :
    Gapless (chat ++ [message]) horizon items where
  order := h.order
  mem := by
    intro item hitem
    obtain ⟨hle, x, hx, hsame⟩ := h.mem item hitem
    exact ⟨hle, x, mem_append_left _ hx, hsame⟩
  covers := by
    intro first hfirst m hm hge hle
    rcases mem_append.mp hm with hold | hone
    · obtain ⟨item, hitem, htogether⟩ := h.covers first hfirst m hold hge hle
      refine ⟨item, hitem, htogether.of_imp fun x hx hmax => ?_⟩
      rcases mem_append.mp hx with hx | hx
      · exact hx
      · rw [mem_singleton.mp hx] at hmax
        have hmost := hmax.trans (max_le hle (h.mem item hitem).1)
        exact absurd hmost (not_le.mpr hnew)
    · rw [mem_singleton.mp hone] at hle
      exact absurd hle (not_le.mpr hnew)

theorem Reaches.arrive {horizon bound : ℕ} {items : List TbMessage} {message : Message}
    (h : Reaches chat horizon items bound) (hgapless : Gapless chat horizon items)
    (hnew : horizon < message.id) (hbound : bound ≤ message.id) :
    Reaches (chat ++ [message]) horizon items bound := by
  unfold Reaches at h ⊢
  cases hhead : items.head? with
  | none =>
    rw [hhead] at h
    intro m hm
    rcases mem_append.mp hm with hold | hone
    · exact h m hold
    · rw [mem_singleton.mp hone]
      exact ⟨fun _ => hnew, fun _ => hbound⟩
  | some first =>
    rw [hhead] at h
    have hfirst := (hgapless.mem first (mem_of_mem_head? hhead)).1
    intro m hm hge hlt
    rcases mem_append.mp hm with hold | hone
    · refine (h m hold hge hlt).of_imp fun x hx hmax => ?_
      rcases mem_append.mp hx with hx | hx
      · exact hx
      · rw [mem_singleton.mp hx] at hmax
        exact absurd (hmax.trans (max_le (hlt.le.trans hfirst) hfirst)) (not_le.mpr hnew)
    · rw [mem_singleton.mp hone] at hlt
      exact absurd (hlt.trans_le hfirst) (not_lt.mpr hnew.le)

theorem newestId_append (message : Message) : newestId (chat ++ [message]) = message.id := by
  simp [newestId]

theorem sound_arrive (h : Sound s) (message : Message) :
    Sound (s.step config (.arrive message)) := by
  unfold View.step
  dsimp only
  split
  · rename_i hnew
    have hlt : s.horizon < message.id := h.horizon.trans_lt hnew.1
    refine ⟨?_, ?_, ?_, ?_, fun htruncated => ⟨?_, fun bound hbound => ?_⟩⟩
    · refine pairwise_append.mpr ⟨h.order, pairwise_singleton _ _, ?_⟩
      intro x hx y hy
      rw [mem_singleton.mp hy]
      exact (le_newestId h.order hx).trans_lt hnew.1
    · intro m hm
      rcases mem_append.mp hm with hold | hone
      · exact h.bounded m hold
      · rw [mem_singleton.mp hone]
        exact hnew.2
    · rw [newestId_append]
      exact hlt.le
    · intro bound hbound
      rw [newestId_append]
      have hle := h.next bound hbound
      omega
    · exact (h.whole htruncated).gapless.arrive hlt
    · have hle := h.next bound hbound
      exact ((h.whole htruncated).reaches bound hbound).arrive (h.whole htruncated).gapless hlt
        (by omega)
  · exact h

theorem last_page_le (hchat : Ordered chat) {cursor : Option ℕ} {n bound : ℕ}
    (hbound : bound ≤ newestId chat + 1) :
    (pageOf chat cursor n).getLast?.elim bound Message.id ≤ newestId chat + 1 := by
  cases hlast : (pageOf chat cursor n).getLast? with
  | none => exact hbound
  | some last =>
    have hmem := (stretch_pageOf hchat cursor n).mem last (mem_of_getLast? hlast)
    exact (le_newestId hchat hmem).trans (Nat.le_succ _)

include hpage hcapacity in
theorem sound_newest (h : Sound s) (first : Bool) (count : ℕ) (more : Bool)
    (hadjoins : Adjoins config s (.newest first count more)) :
    Sound (s.newest config first count more) := by
  refine ⟨h.order, h.bounded, ?_, ?_, ?_⟩
  · unfold View.newest
    dsimp only
    split
    · rename_i head hhead
      exact le_newestId h.order ((stretch_pageOf h.order none _).mem head
        (mem_of_mem_head? hhead))
    · split
      · exact le_rfl
      · exact h.horizon
  · intro bound hbound
    rcases next_newest first count more hbound with rfl | ⟨-, -, hnext⟩
    · exact last_page_le h.order le_rfl
    · exact h.next bound hnext
  · intro htruncated
    by_cases hfresh : first = true ∨ s.history.items = []
    · exact shown_fresh hpage hcapacity h first count more hadjoins hfresh htruncated
    · rw [not_or, Bool.not_eq_true] at hfresh
      obtain ⟨rfl, hshown⟩ := hfresh
      exact shown_refresh hpage h count more hadjoins hshown htruncated

include hpage hcapacity in
theorem sound_older (h : Sound s) (count : ℕ) (more : Bool) :
    Sound (s.older config count more) := by
  have hchat : (s.older config count more).chat = s.chat := by
    unfold View.older
    split <;> rfl
  have hhorizon : (s.older config count more).horizon = s.horizon := by
    unfold View.older
    split <;> rfl
  refine ⟨?_, ?_, ?_, ?_, shown_older hpage hcapacity h count more⟩
  · exact hchat ▸ h.order
  · exact hchat ▸ h.bounded
  · rw [hchat, hhorizon]
    exact h.horizon
  · intro bound hbound
    rw [hchat]
    unfold View.older at hbound
    split at hbound
    · exact h.next bound hbound
    · rename_i before hbefore
      cases more with
      | false => exact absurd hbound (by simp [HistoryCursor.read])
      | true =>
        obtain rfl := Option.some.inj hbound
        exact last_page_le h.order (h.next before hbefore)

include hpage hcapacity in
/-- **Every event keeps what is shown without a gap**, if its page meets the condition. -/
theorem sound_step (h : Sound s) (event : ViewEvent) (hadjoins : Adjoins config s event) :
    Sound (s.step config event) := by
  cases event with
  | arrive message => exact sound_arrive h message
  | forget =>
    refine ⟨h.order, h.bounded, h.horizon, nofun, fun htruncated => ?_⟩
    exact ⟨(h.whole htruncated).gapless, nofun⟩
  | newest first count more => exact sound_newest hpage hcapacity h first count more hadjoins
  | older count more => exact sound_older hpage hcapacity h count more

end Step

section Run

variable {s : View}

theorem mem_received {m : Message} : m ∈ s.received ↔ m ∈ s.chat ∧ m.id ≤ s.horizon := by
  simp [View.received]

theorem Together.received {m k : ℕ} (h : Together s.chat m k) : Together s.received m k :=
  h.of_imp fun _ hx _ => (mem_received.mp hx).1

theorem Ordered.received (h : Ordered s.chat) : Ordered s.received := h.filter _

theorem represented_of_le (h : Sound s) (htruncated : s.history.truncated = false) {m x : Message}
    (hx : x ∈ s.received) (hle : m.id ≤ x.id) (hm : Represented s m) : Represented s x := by
  obtain ⟨item, hitem, htogether⟩ := hm
  have hgapless := (h.whole htruncated).gapless
  obtain ⟨hxchat, hxhorizon⟩ := mem_received.mp hx
  cases hhead : s.history.items.head? with
  | none =>
    rw [List.head?_eq_none_iff.mp hhead] at hitem
    exact absurd hitem not_mem_nil
  | some first =>
    by_cases hge : first.key ≤ x.id
    · obtain ⟨found, hfound, hblock⟩ := hgapless.covers first hhead x hxchat hge hxhorizon
      exact ⟨found, hfound, hblock.received⟩
    · -- the message is between one that is represented and its item
      have hto : x.id ≤ item.key := (not_le.mp hge).le.trans (head_le hgapless.order hhead hitem)
      refine ⟨item, hitem, htogether.between ?_ ?_⟩
      · exact (min_le_left _ _).trans hle
      · exact hto.trans (le_max_right _ _)

theorem represented_item (h : Sound s) (htruncated : s.history.truncated = false) {item : TbMessage}
    (hitem : item ∈ s.history.items) : ∃ m ∈ s.received, m.id = item.key ∧ Represented s m := by
  obtain ⟨hle, m, hm, hid, -⟩ := (h.whole htruncated).gapless.mem item hitem
  refine ⟨m, mem_received.mpr ⟨hm, hid ▸ hle⟩, hid, item, hitem, ?_⟩
  rw [hid]
  exact InBlock.refl _ _

open Classical in
theorem Sound.contiguous (h : Sound s) (htruncated : s.history.truncated = false) :
    Contiguous s := by
  let out : Message → Bool := fun m => ¬ Represented s m
  have hsplit : s.received = s.received.takeWhile out ++ s.received.dropWhile out :=
    takeWhile_append_dropWhile.symm
  have hbefore : ∀ m ∈ s.received.takeWhile out, ¬ Represented s m := by
    intro m hm
    simpa [out] using mem_takeWhile_imp hm
  have hshown : ∀ m ∈ s.received.dropWhile out, Represented s m := by
    intro m hm
    have horder := h.order.received
    have hin : m ∈ s.received := dropWhile_subset _ hm
    rw [hsplit] at horder
    have horder' := (pairwise_append.mp horder).2.1
    have hfirst := List.head?_dropWhile_not out s.received
    cases hlist : s.received.dropWhile out with
    | nil =>
      rw [hlist] at hm
      exact absurd hm not_mem_nil
    | cons first rest =>
      rw [hlist] at hm horder' hfirst
      have hrep : Represented s first := by simpa [out] using hfirst
      rcases mem_cons.mp hm with rfl | hlater
      · exact hrep
      · have hlt := (pairwise_cons.mp horder').1 m hlater
        exact represented_of_le h htruncated hin hlt.le hrep
  refine ⟨_, _, hsplit, hbefore, hshown, fun item hitem => ?_⟩
  obtain ⟨m, hm, hid, hrep⟩ := represented_item h htruncated hitem
  rw [hsplit] at hm
  rcases mem_append.mp hm with hout | hin
  · exact absurd hrep (hbefore m hout)
  · exact ⟨m, hin, hid⟩

/-- `history_config` of `main.c`. -/
def historyConfig : TbHistoryConfig := { capacity := 60, pageLimit := 20, textBudget := 12288 }

end Run

end Link
