import TeleBezel.Runtime.HistoryReads
import Mathlib.Data.List.ReduceOption

/-!
# Pages of a history follow one another

A page is what TDLib had stored right below its anchor while it was read, without what it lost; the next
page goes on behind the last message of it. Messages that the journal tells to be deleted are left out,
as long as the journal is not cleared inside its epoch while a page is read.
-/

open List

namespace Runtime

/-! ## What holds of pages -/

/-- **A page**: at most as many messages as asked for, below the anchor and newest first, all that were
stored there while it was read down to the last of them, and a cursor for that one. -/
structure HistoryPage.Good (page : HistoryPage) : Prop where
  length : page.items.length ≤ page.limit
  sorted : (page.items.map (·.id)).Pairwise fun newer older => older < newer
  below : page.anchor ≠ 0 → ∀ item ∈ page.items, item.id < page.anchor
  /-- TDLib has had them stored. -/
  stored : ∀ item ∈ page.items, item.id ∈ page.met
  /-- None is left out that it had stored all the time. -/
  complete : ∀ last ∈ page.items.getLast?, ∀ id ∈ page.kept,
    (page.anchor = 0 ∨ id < page.anchor) → last.id ≤ id → id ∈ page.items.map (·.id)
  cursor : page.nextCursor.map (·.id) = page.items.getLast?.map (·.id)
  requests : page.requests.length ≤ 8

/-- No item was reported to be deleted. -/
def HistoryPage.WithoutDeleted (chatId : ℤ) (page : HistoryPage) : Prop :=
  ∀ item ∈ page.items, reportedDeleted chatId page.told item.id = false

def historyIds (pages : List HistoryPage) : List ℤ := pages.flatMap fun page => page.items.map (·.id)

/-- **The pages of a chain**: no message twice, none left out that was stored all the time, and each page
begins behind the last message before it. -/
structure HistoryReads.Chained (s : HistoryReads) : Prop where
  sorted : (historyIds s.pages).Pairwise fun newer older => older < newer
  complete : ∀ kept ∈ s.kept, ∀ id ∈ kept, ∀ cursor ∈ s.position, cursor.id ≤ id →
    id ∈ historyIds s.pages
  position : s.position.map (·.id) = (historyIds s.pages).getLast?
  anchors : ∀ before page after, s.pages = before ++ page :: after →
    page.anchor = ((historyIds before).getLast?).getD 0
  requests : ∀ call ∈ s.call, call.requests.length ≤ 8

/-! ## Answers of TDLib -/

section Scan

theorem mem_of_segment {ids full : List ℤ} (h : ids <+: full)
    (hsorted : full.Pairwise fun newer older => older < newer) {id last : ℤ} (hid : id ∈ full)
    (hlast : last ∈ ids) (hle : last ≤ id) : id ∈ ids := by
  obtain ⟨rest, rfl⟩ := h
  rcases mem_append.mp hid with hmem | hrest
  · exact hmem
  · have := (pairwise_append.mp hsorted).2.2 last hlast id hrest
    omega

theorem last_le {ids : List ℤ} (hsorted : ids.Pairwise fun newer older => older < newer) {last : ℤ}
    (hlast : ids.getLast? = some last) : ∀ id ∈ ids, last ≤ id := by
  obtain ⟨before, rfl⟩ := List.getLast?_eq_some_iff.mp hlast
  intro id hid
  rcases mem_append.mp hid with hid | hid
  · have := (pairwise_append.mp hsorted).2.2 id hid last (mem_singleton_self _)
    omega
  · rw [mem_singleton.mp hid]

def fresh (anchor : ℤ) (items : List (Option HistoryItem)) : List HistoryItem :=
  items.reduceOption.filter fun item => decide (anchor = 0 ∨ item.id < anchor)

theorem scan_eq {call : HistoryCall} {items : List (Option HistoryItem)}
    (hsorted : (items.reduceOption.map (·.id)).Pairwise fun newer older => older < newer)
    (hseen : ∀ id ∈ call.seen, call.fetchAnchor ≠ 0 ∧ call.fetchAnchor ≤ id) :
    call.scan items =
      { items := call.items ++ fresh call.fetchAnchor items
        seen := ((fresh call.fetchAnchor items).map (·.id)).reverse ++ call.seen
        oldest := ((fresh call.fetchAnchor items).getLast?.map (·.id)).getD call.fetchAnchor
        advanced := !(fresh call.fetchAnchor items).isEmpty } := by
  induction items using List.reverseRecOn with
  | nil => simp [HistoryCall.scan, fresh, List.reduceOption]
  | append_singleton items item ih =>
    rw [reduceOption_append, map_append] at hsorted
    obtain ⟨hbefore, -, hlast⟩ := pairwise_append.mp hsorted
    have hstep : call.scan (items ++ [item]) =
        (call.scan items).step call.fetchAnchor item := by
      rw [HistoryCall.scan, foldl_append]
      rfl
    rw [hstep, ih hbefore]
    have hfresh : fresh call.fetchAnchor (items ++ [item]) =
        fresh call.fetchAnchor items ++ fresh call.fetchAnchor [item] := by
      rw [fresh, reduceOption_append, filter_append]
      rfl
    rw [hfresh]
    cases item with
    | none => simp [HistoryScan.step, fresh, List.reduceOption]
    | some item =>
      by_cases hskip : call.fetchAnchor ≠ 0 ∧ call.fetchAnchor ≤ item.id
      · -- it is not below the anchor
        have hnone : fresh call.fetchAnchor [some item] = [] := by
          have hnot : ¬(call.fetchAnchor = 0 ∨ item.id < call.fetchAnchor) := by omega
          simp [fresh, List.reduceOption, hnot]
        rw [hnone]
        simp [HistoryScan.step, hskip]
      · have hone : fresh call.fetchAnchor [some item] = [item] := by
          have hyes : call.fetchAnchor = 0 ∨ item.id < call.fetchAnchor := by omega
          simp [fresh, List.reduceOption, hyes]
        have hbelow : ∀ other ∈ fresh call.fetchAnchor items, item.id < other.id := by
          intro other hother
          refine hlast other.id ?_ item.id (by simp [List.reduceOption])
          exact mem_map_of_mem (mem_filter.mp hother).1
        have hnew : item.id ∉
            ((fresh call.fetchAnchor items).map (·.id)).reverse ++ call.seen := by
          intro hmem
          rcases mem_append.mp hmem with hmem | hmem
          · obtain ⟨other, hother, heq⟩ := mem_map.mp (mem_reverse.mp hmem)
            exact absurd (hbelow other hother) (by omega)
          · exact hskip (hseen item.id hmem)
        rw [hone]
        dsimp only [HistoryScan.step]
        rw [if_neg hskip, if_neg hnew]
        have holdest : (if (!(fresh call.fetchAnchor items).isEmpty) = true then
            min (((fresh call.fetchAnchor items).getLast?.map (·.id)).getD call.fetchAnchor) item.id
            else item.id) = item.id := by
          split
          · rename_i hne
            obtain ⟨last, hmem⟩ : ∃ last, (fresh call.fetchAnchor items).getLast? = some last := by
              cases hcase : (fresh call.fetchAnchor items).getLast? with
              | none =>
                rw [List.getLast?_eq_none_iff.mp hcase] at hne
                cases hne
              | some last => exact ⟨last, rfl⟩
            have := hbelow last (mem_of_getLast? hmem)
            rw [hmem]
            simp only [Option.map_some, Option.getD_some]
            omega
          · rfl
        simp only [holdest]
        simp

end Scan

/-! ## The call under way -/

def HistoryCall.ids (call : HistoryCall) : List ℤ := call.items.map (·.id)

structure HistoryCall.Inv (chatId : ℤ) (store : MessageStore) (call : HistoryCall) : Prop where
  start : call.items = [] → call.fetchAnchor = call.anchor
  last : call.items ≠ [] → call.ids.getLast? = some call.fetchAnchor
  seen : ∀ id ∈ call.seen, call.fetchAnchor ≠ 0 ∧ call.fetchAnchor ≤ id
  sorted : call.ids.Pairwise fun newer older => older < newer
  positive : ∀ id ∈ call.ids, 0 < id
  below : call.anchor ≠ 0 → ∀ id ∈ call.ids, id < call.anchor
  met : ∀ id ∈ call.ids, id ∈ call.met
  store_met : ∀ id ∈ store.ids, id ∈ call.met
  kept : ∀ id ∈ call.kept, id ∈ store.ids
  complete : call.items ≠ [] → ∀ id ∈ call.kept, (call.anchor = 0 ∨ id < call.anchor) →
    call.fetchAnchor ≤ id → id ∈ call.ids
  attempt : call.attempt ≤ 8
  requests : call.requests.length ≤ call.attempt
  told : ∀ id ∈ call.kept, ⟨chatId, id, true⟩ ∉ call.told

section Call

variable {chatId : ℤ} {store : MessageStore} {call : HistoryCall}

theorem HistoryCall.Inv.fetchAnchor_le (h : call.Inv chatId store) {id : ℤ} (hid : id ∈ call.ids) :
    call.fetchAnchor ≠ 0 ∧ call.fetchAnchor ≤ id := by
  have hitems : call.items ≠ [] := by
    intro hnil
    rw [HistoryCall.ids, hnil] at hid
    cases hid
  have hlast := h.last hitems
  refine ⟨?_, last_le h.sorted hlast id hid⟩
  have := h.positive _ (mem_of_getLast? hlast)
  omega

theorem HistoryCall.Inv.take (h : call.Inv chatId store) {items : List (Option HistoryItem)}
    (hsegment : items.reduceOption.map HistoryItem.id <+: store.upTo call.fetchAnchor)
    (hfresh : fresh call.fetchAnchor items ≠ []) :
    HistoryCall.Inv chatId store { call with
      items := call.items ++ fresh call.fetchAnchor items
      seen := ((fresh call.fetchAnchor items).map HistoryItem.id).reverse ++ call.seen
      fetchAnchor :=
        ((fresh call.fetchAnchor items).getLast?.map HistoryItem.id).getD call.fetchAnchor } := by
  obtain ⟨last, hmem, hlast⟩ : ∃ last ∈ fresh call.fetchAnchor items,
      (fresh call.fetchAnchor items).getLast? = some last :=
    ⟨_, getLast_mem hfresh, List.getLast?_eq_some_getLast hfresh⟩
  have hupTo : (store.upTo call.fetchAnchor).Pairwise fun newer older => older < newer :=
    store.sorted.filter _
  have hsorted : ((fresh call.fetchAnchor items).map HistoryItem.id).Pairwise
      fun newer older => older < newer :=
    (hupTo.sublist hsegment.sublist).sublist (filter_sublist.map _)
  have hlastId : ((fresh call.fetchAnchor items).map HistoryItem.id).getLast? = some last.id := by
    rw [List.getLast?_map, hlast]
    rfl
  have hstored : ∀ id ∈ (fresh call.fetchAnchor items).map HistoryItem.id, id ∈ store.ids := by
    intro id hid
    have hitem := hsegment.subset ((filter_sublist.map HistoryItem.id).subset hid)
    exact (mem_filter.mp hitem).1
  -- what is fresh is below all that was there
  have hbelow : ∀ id ∈ (fresh call.fetchAnchor items).map HistoryItem.id, call.fetchAnchor ≠ 0 →
      id < call.fetchAnchor := by
    intro id hid hne
    obtain ⟨item, hitem, rfl⟩ := mem_map.mp hid
    exact (of_decide_eq_true (mem_filter.mp hitem).2).resolve_left hne
  have hids : ∀ id ∈ call.ids ++ (fresh call.fetchAnchor items).map HistoryItem.id,
      id ∈ call.ids ∨ id ∈ (fresh call.fetchAnchor items).map HistoryItem.id :=
    fun id hid => mem_append.mp hid
  rw [hlast]
  refine
    { h with
      start := fun hnil => absurd (append_eq_nil_iff.mp hnil).2 hfresh
      last := fun _ => ?_, seen := ?_, sorted := ?_, positive := ?_, below := ?_, met := ?_
      complete := fun _ => ?_ }
  all_goals simp only [HistoryCall.ids, map_append, Option.map_some, Option.getD_some]
  · rw [List.getLast?_append, hlastId]
    rfl
  · intro id hid
    have hpositive := store.positive last.id (hstored _ (mem_map_of_mem hmem))
    refine ⟨by omega, ?_⟩
    rcases mem_append.mp hid with hid | hid
    · exact last_le hsorted hlastId id (mem_reverse.mp hid)
    · obtain ⟨hne, hle⟩ := h.seen id hid
      have := hbelow last.id (mem_map_of_mem hmem) hne
      omega
  · refine pairwise_append.mpr ⟨h.sorted, hsorted, fun newer hnewer older holder => ?_⟩
    obtain ⟨hne, hle⟩ := h.fetchAnchor_le hnewer
    have := hbelow older holder hne
    omega
  · intro id hid
    rcases hids id hid with hid | hid
    · exact h.positive id hid
    · exact store.positive id (hstored id hid)
  · intro hanchor id hid
    rcases hids id hid with hid | hid
    · exact h.below hanchor id hid
    · by_cases hitems : call.items = []
      · have hstart := h.start hitems
        have := hbelow id hid (by rw [hstart]; exact hanchor)
        rwa [hstart] at this
      · have hold := mem_of_getLast? (h.last hitems)
        have := hbelow id hid (h.fetchAnchor_le hold).1
        exact Int.lt_trans this (h.below hanchor _ hold)
  · intro id hid
    rcases hids id hid with hid | hid
    · exact h.met id hid
    · exact h.store_met id (hstored id hid)
  · intro id hkept hunder hle
    by_cases hold : call.fetchAnchor = 0 ∨ id < call.fetchAnchor
    · -- it is in the answer
      refine mem_append_right _ ?_
      have hfull : id ∈ store.upTo call.fetchAnchor := by
        refine mem_filter.mpr ⟨h.kept id hkept, decide_eq_true ?_⟩
        omega
      have hanswer := mem_of_segment hsegment hupTo hfull
        ((filter_sublist.map HistoryItem.id).subset (mem_map_of_mem hmem)) hle
      obtain ⟨item, hitem, rfl⟩ := mem_map.mp hanswer
      exact mem_map_of_mem (mem_filter.mpr ⟨hitem, decide_eq_true hold⟩)
    · -- the call has got it before
      refine mem_append_left _ ?_
      by_cases hitems : call.items = []
      · have := h.start hitems
        change call.anchor = 0 ∨ id < call.anchor at hunder
        omega
      · exact h.complete hitems id hkept hunder (by omega)

theorem HistoryCall.Inv.turn (h : call.Inv chatId store) (hgoes : call.goesOn = true) (timeUp : Bool)
    {response : HistoryResponse} (hanswers : store.Answers call.fetchAnchor response) :
    (call.turn timeUp response).Inv chatId store := by
  have hattempt : call.attempt + 1 ≤ 8 := by
    simp only [HistoryCall.goesOn, Bool.and_eq_true, decide_eq_true_eq] at hgoes
    omega
  have hrequests : (call.requests ++ [(call.fetchAnchor, call.requested)]).length ≤
      call.attempt + 1 := by
    have := h.requests
    rw [length_append, length_singleton]
    omega
  unfold HistoryCall.turn
  split
  · exact { h with }
  · match response, hanswers with
    | .failed, _ | .messages [], _ => exact { h with attempt := hattempt, requests := hrequests }
    | .messages (item :: items), hanswers =>
      obtain ⟨-, hsegment⟩ := hanswers
      have hscan := @scan_eq
        { call with
          attempt := call.attempt + 1
          requests := call.requests ++ [(call.fetchAnchor, call.requested)] }
        (item :: items) ((store.sorted.filter _).sublist hsegment.sublist) h.seen
      dsimp only at hscan ⊢
      rw [hscan]
      split
      · exact { h with attempt := hattempt, requests := hrequests }
      · rename_i hadvanced
        have hfresh : fresh call.fetchAnchor (item :: items) ≠ [] := by
          simpa using hadvanced
        exact { h.take hsegment hfresh with attempt := hattempt, requests := hrequests }

theorem HistoryCall.turn_frame (call : HistoryCall) (timeUp : Bool) (response : HistoryResponse) :
    (call.turn timeUp response).cursor = call.cursor ∧ (call.turn timeUp response).fence = call.fence ∧
      (call.turn timeUp response).kept = call.kept ∧ (call.turn timeUp response).told = call.told := by
  unfold HistoryCall.turn
  split
  · exact ⟨rfl, rfl, rfl, rfl⟩
  · match response with
    | .failed | .messages [] => exact ⟨rfl, rfl, rfl, rfl⟩
    | .messages (item :: items) =>
      dsimp only
      split <;> exact ⟨rfl, rfl, rfl, rfl⟩

theorem HistoryCall.Inv.begin (chatId : ℤ) (store : MessageStore) (limit : ℕ)
    (cursor : Option HistoryCursor) (fence : ReadFence) :
    HistoryCall.Inv chatId store
      { limit, cursor, fence
        fetchAnchor := (cursor.map HistoryCursor.id).getD 0
        kept := store.ids
        met := store.ids } where
  start _ := rfl
  last h := absurd rfl h
  seen _ := nofun
  sorted := List.Pairwise.nil
  positive _ := nofun
  below _ _ := nofun
  met _ := nofun
  store_met _ hid := hid
  kept _ hid := hid
  complete h := absurd rfl h
  attempt := Nat.zero_le _
  requests := Nat.zero_le _
  told _ _ := nofun

section

variable (h : call.Inv chatId store)
include h

theorem HistoryCall.Inv.insert (id : ℤ) :
    HistoryCall.Inv chatId (store.insert id)
      { call with met := (store.insert id).ids ++ call.met } :=
  { h with
    met := fun other hother => mem_append_right _ (h.met other hother)
    store_met := fun _ hother => mem_append_left _ hother
    kept := fun other hother => MessageStore.mem_insert_of_mem (h.kept other hother) id }

theorem HistoryCall.Inv.lose (id : ℤ) :
    HistoryCall.Inv chatId store
      { call with kept := call.kept.filter fun other => other ≠ id } :=
  { h with
    kept := fun other hother => h.kept other (mem_filter.mp hother).1
    complete := fun hitems other hother => h.complete hitems other (mem_filter.mp hother).1
    told := fun other hother => h.told other (mem_filter.mp hother).1 }

theorem HistoryCall.Inv.erase {id : ℤ} (hid : id ∉ call.kept) :
    call.Inv chatId (store.erase id) :=
  { h with
    store_met := fun other hother => h.store_met other (mem_filter.mp hother).1
    kept := fun other hother => by
      refine mem_filter.mpr ⟨h.kept other hother, decide_eq_true ?_⟩
      rintro rfl
      exact hid hother }

theorem HistoryCall.Inv.tell {change : HistoryChange}
    (hlost : change.chatId = chatId ∧ change.deleted = true → change.messageId ∉ call.kept) :
    HistoryCall.Inv chatId store { call with told := call.told ++ [change] } :=
  { h with
    told := fun id hid hmem => by
      rcases mem_append.mp hmem with hold | hnew
      · exact h.told id hid hold
      · rw [← mem_singleton.mp hnew] at hlost
        exact hlost ⟨rfl, rfl⟩ hid }

end

end Call

/-! ## What is answered -/

section Answer

variable {chatId : ℤ} (put : HistoryItem → MessageMemory → MessageMemory)
variable (journal : Journal HistoryChange) (fence : ReadFence)

def deletedSince (chatId id : ℤ) : Bool :=
  (changedSince journal fence chatId id).any (·.deleted)

theorem reviseAll_ids (items : List HistoryItem) (memory : MessageMemory) :
    (reviseAll put journal fence chatId items memory).1.reduceOption.map HistoryItem.id =
      (items.map HistoryItem.id).filter fun id => !deletedSince journal fence chatId id := by
  induction items generalizing memory with
  | nil => rfl
  | cons item items ih =>
    dsimp only [reviseAll]
    rw [map_cons]
    unfold revise
    cases hchanged : changedSince journal fence chatId item.id with
    | none =>
      have hkept : deletedSince journal fence chatId item.id = false := by
        rw [deletedSince, hchanged]
        rfl
      rw [filter_cons_of_pos (by rw [hkept]; rfl)]
      rw [reduceOption_cons_of_some, map_cons, ih]
    | some change =>
      cases hdeleted : change.deleted with
      | true =>
        have hleft : deletedSince journal fence chatId item.id = true := by
          rw [deletedSince, hchanged]
          exact hdeleted
        rw [filter_cons_of_neg (by rw [hleft]; simp)]
        simp only [hdeleted, if_true]
        rw [reduceOption_cons_of_none, ih]
      | false =>
        have hkept : deletedSince journal fence chatId item.id = false := by
          rw [deletedSince, hchanged]
          exact hdeleted
        rw [filter_cons_of_pos (by rw [hkept]; rfl)]
        simp only [hdeleted, Bool.false_eq_true, if_false]
        cases memory item.id with
        | none | some projection =>
          rw [reduceOption_cons_of_some, map_cons, ih]

theorem arrange_eq {items : List HistoryItem}
    (h : (items.map HistoryItem.id).Pairwise fun newer older => older < newer) :
    HistoryCall.arrange items = items := by
  have hpairwise : items.Pairwise fun left right => right.id < left.id := pairwise_map.mp h
  unfold HistoryCall.arrange
  rw [mergeSort_of_pairwise (hpairwise.imp fun hlt => decide_eq_true hlt.le)]
  apply destutter_of_isChain
  exact (hpairwise.imp fun hlt => hlt.ne').isChain

variable {store : MessageStore} {call : HistoryCall}

theorem page_ids (h : call.Inv chatId store) (memory : MessageMemory) :
    (call.page (reviseAll put journal fence chatId call.items memory).1.reduceOption).items.map
        HistoryItem.id =
      (call.ids.filter fun id => !deletedSince journal fence chatId id).take call.limit := by
  have hrevised := @reviseAll_ids chatId put journal fence call.items memory
  have hsorted : ((reviseAll put journal fence chatId call.items memory).1.reduceOption.map
      HistoryItem.id).Pairwise fun newer older => older < newer := by
    rw [hrevised]
    exact h.sorted.filter _
  have harrange := arrange_eq hsorted
  change ((HistoryCall.arrange _).take call.limit).map HistoryItem.id = _
  rw [harrange, map_take, hrevised]
  rfl

theorem mem_ids_of_page (h : call.Inv chatId store) (memory : MessageMemory) :
    ∀ item ∈ (call.page
      (reviseAll put journal fence chatId call.items memory).1.reduceOption).items,
      item.id ∈ call.ids := by
  intro item hitem
  have hid := mem_map_of_mem (f := HistoryItem.id) hitem
  rw [page_ids put journal fence h memory] at hid
  exact (mem_filter.mp (mem_of_mem_take hid)).1

theorem page_good (h : call.Inv chatId store)
    (hkept : ∀ id ∈ call.kept, deletedSince journal fence chatId id = false)
    (memory : MessageMemory) :
    (call.page (reviseAll put journal fence chatId call.items memory).1.reduceOption).Good := by
  have hids := page_ids put journal fence h memory
  have hsub := mem_ids_of_page put journal fence h memory
  generalize (reviseAll put journal fence chatId call.items memory).1.reduceOption = revised at hids hsub
  have hleft : (call.ids.filter fun id => !deletedSince journal fence chatId id).Pairwise
      fun newer older => older < newer := h.sorted.filter _
  have hbelow : call.anchor ≠ 0 → ∀ item ∈ (call.page revised).items, item.id < call.anchor :=
    fun hanchor item hitem => h.below hanchor item.id (hsub item hitem)
  refine
    { length := length_take_le _ _
      sorted := ?_
      below := hbelow
      stored := fun item hitem => h.met item.id (hsub item hitem)
      complete := ?_
      cursor := ?_
      requests := Nat.le_trans h.requests h.attempt }
  · rw [hids]
    exact hleft.sublist (take_sublist _ _)
  · intro last hlast id hid hunder hle
    have hmem := mem_of_getLast? hlast
    have hitems : call.items ≠ [] := by
      intro hnil
      have := hsub last hmem
      rw [HistoryCall.ids, hnil] at this
      cases this
    have hanchor := (h.fetchAnchor_le (hsub last hmem)).2
    have hgot := h.complete hitems id hid hunder (hanchor.trans hle)
    have hlastId : last.id ∈ (call.page revised).items.map HistoryItem.id :=
      mem_map_of_mem hmem
    rw [hids] at hlastId ⊢
    refine mem_of_segment (List.take_prefix _ _) hleft ?_ hlastId hle
    exact mem_filter.mpr ⟨hgot, by rw [hkept id hid]; rfl⟩
  · have hnext : (call.page revised).nextCursor =
        if (call.page revised).items ≠ [] ∧ (call.anchor = 0 ∨
          ((call.page revised).items.getLast?.map HistoryItem.id).getD call.anchor < call.anchor) then
          some (call.fence.cursor
            (((call.page revised).items.getLast?.map HistoryItem.id).getD call.anchor))
        else none := rfl
    rw [hnext]
    cases hlast : (call.page revised).items.getLast? with
    | none =>
      rw [if_neg fun hne => hne.1 (List.getLast?_eq_none_iff.mp hlast)]
      rfl
    | some last =>
      have hmem := mem_of_getLast? hlast
      rw [if_pos]
      · rfl
      · refine ⟨ne_nil_of_mem hmem, ?_⟩
        by_cases hanchor : call.anchor = 0
        · exact Or.inl hanchor
        · exact Or.inr (hbelow hanchor last hmem)

theorem changedSince_eq (id : ℤ) : changedSince journal fence chatId id =
    ((journal.after fence.sequence).map Prod.snd).reverse.find?
      fun change => change.chatId = chatId && change.messageId = id := by
  unfold changedSince
  rw [journal.takeWhile_reverse, ← map_reverse, List.find?_map]
  rfl

variable {journal fence}

theorem HistoryCall.Inv.deletedSince_eq (h : call.Inv chatId store)
    (hsince : journal.Since fence.sequence call.told) {id : ℤ} (hid : id ∈ call.kept) :
    deletedSince journal fence chatId id = false := by
  unfold deletedSince
  rw [changedSince_eq]
  cases hfind : ((journal.after fence.sequence).map Prod.snd).reverse.find?
      fun change => change.chatId = chatId && change.messageId = id with
  | none => rfl
  | some change =>
    have htold : change ∈ call.told :=
      hsince.kept.subset (mem_reverse.mp (mem_of_find?_eq_some hfind))
    have hmatch := List.find?_some hfind
    simp only [Bool.and_eq_true, decide_eq_true_eq] at hmatch
    obtain ⟨rfl, rfl⟩ := hmatch
    cases hdeleted : change.deleted with
    | false => exact hdeleted
    | true =>
      obtain ⟨_, _, _⟩ := change
      subst hdeleted
      exact absurd htold (h.told _ hid)

variable {told : List HistoryChange}

theorem deletedSince_eq_reportedDeleted
    (htold : (journal.after fence.sequence).map Prod.snd = told) (id : ℤ) :
    deletedSince journal fence chatId id = reportedDeleted chatId told id := by
  unfold deletedSince reportedDeleted
  rw [changedSince_eq, htold]
  cases told.reverse.find? fun change => change.chatId = chatId && change.messageId = id with
  | none => rfl
  | some change => rfl

theorem reportedDeleted_eq_false
    (h : ∀ change ∈ told, change.chatId = chatId → change.deleted = false) (id : ℤ) :
    reportedDeleted chatId told id = false := by
  unfold reportedDeleted
  cases hfind : told.reverse.find? fun change => change.chatId = chatId && change.messageId = id with
  | none => rfl
  | some change =>
    have hmatch := List.find?_some hfind
    simp only [Bool.and_eq_true, decide_eq_true_eq] at hmatch
    exact h change (mem_reverse.mp (mem_of_find?_eq_some hfind)) hmatch.1

theorem page_withoutDeleted (h : call.Inv chatId store) (hsince : journal.Since fence.sequence call.told)
    (hfirst : ∀ first ∈ journal.first, first ≤ fence.sequence + 1)
    (hcleared : journal.events = [] →
      ∀ change ∈ call.told, change.chatId = chatId → change.deleted = false)
    (memory : MessageMemory) :
    (call.page (reviseAll put journal fence chatId call.items memory).1.reduceOption).WithoutDeleted
      chatId := by
  have hids := page_ids put journal fence h memory
  intro item hitem
  change reportedDeleted chatId call.told item.id = false
  by_cases hevents : journal.events = []
  · exact reportedDeleted_eq_false (hcleared hevents) item.id
  · rw [← deletedSince_eq_reportedDeleted (hsince.eq hevents hfirst) item.id]
    have hid := mem_map_of_mem (f := HistoryItem.id) hitem
    rw [hids] at hid
    simpa using (mem_filter.mp (mem_of_mem_take hid)).2

end Answer

/-! ## Chains -/

namespace AccountSession

variable {ε : Type} {config : Config} {s : AccountSession ε}

theorem step_journal {event : SessionEvent ε} (happend : ∀ entry, event ≠ .append entry) :
    ((s.step config event).epoch = s.epoch ∧ ((s.step config event).journal = s.journal ∨
      (∃ e, event = .engine e ∧ sessionChange config s.engine e = .reset) ∧
        (s.step config event).journal = s.journal.clear)) ∨
      (s.step config event).epoch = s.epochs := by
  cases event with
  | engine event =>
    have hepoch : (s.step config (.engine event)).epoch =
        (s.change (sessionChange config s.engine event)).epoch := rfl
    have hjournal : (s.step config (.engine event)).journal =
        (s.change (sessionChange config s.engine event)).journal := rfl
    rw [hepoch, hjournal]
    cases hchange : sessionChange config s.engine event with
    | none => exact Or.inl ⟨rfl, Or.inl rfl⟩
    | fresh | renew | leave => exact Or.inr rfl
    | reset => exact Or.inl ⟨rfl, Or.inr ⟨⟨event, rfl, hchange⟩, rfl⟩⟩
  | append entry => exact absurd rfl (happend entry)
  | beginRead =>
    dsimp only [AccountSession.step]
    split <;> exact Or.inl ⟨rfl, Or.inl rfl⟩
  | updates cursor limit =>
    dsimp only [AccountSession.step]
    split
    · split <;> exact Or.inl ⟨rfl, Or.inl rfl⟩
    · exact Or.inl ⟨rfl, Or.inl rfl⟩

end AccountSession

namespace HistoryReads

variable {config : Config} {chatId : ℤ} {put : HistoryItem → MessageMemory → MessageMemory}
variable {s : HistoryReads}

structure Follows (session : AccountSession HistoryChange) (call : HistoryCall) : Prop where
  epoch : call.fence.epoch ≤ session.epoch
  since : call.fence.epoch = session.epoch → session.journal.Since call.fence.sequence call.told

theorem readFence_eq {fence : ReadFence} (h : s.session.fence.readFence = some fence) :
    fence.epoch = s.session.epoch ∧ fence.sequence = s.session.journal.sequence := by
  unfold FenceState.readFence at h
  split at h
  · cases h
    exact ⟨rfl, rfl⟩
  · exact nomatch h

structure CallInv (chatId : ℤ) (session : AccountSession HistoryChange) (store : MessageStore)
    (position : Option HistoryCursor) (kept : Option (List ℤ)) (call : HistoryCall) : Prop where
  inv : call.Inv chatId store
  cursor : call.cursor = position
  kept : ∃ ids, kept = some ids ∧ ∀ id ∈ ids, id ∈ call.kept
  follows : Follows session call

structure Inv (chatId : ℤ) (s : HistoryReads) : Prop where
  tracked : s.session.Tracked
  under : ∀ call, s.call = some call → CallInv chatId s.session s.store s.position s.kept call
  kept : ∀ kept, s.kept = some kept → ∀ id ∈ kept, id ∈ s.store.ids
  started : s.kept = none → s.position = none
  good : ∀ page ∈ s.pages, page.Good
  positive : ∀ id ∈ historyIds s.pages, 0 < id
  sorted : (historyIds s.pages).Pairwise fun newer older => older < newer
  complete : ∀ kept, s.kept = some kept → ∀ id ∈ kept, ∀ cursor, s.position = some cursor →
    cursor.id ≤ id → id ∈ historyIds s.pages
  position : s.position.map HistoryCursor.id = (historyIds s.pages).getLast?
  anchors : ∀ before page after, s.pages = before ++ page :: after →
    page.anchor = ((historyIds before).getLast?).getD 0

theorem Inv.init (chatId : ℤ) : Inv chatId {} where
  tracked := AccountSession.tracked_start
  under _ := nofun
  kept _ := nofun
  started _ := rfl
  good _ := nofun
  positive _ := nofun
  sorted := List.Pairwise.nil
  complete _ := nofun
  position := rfl
  anchors before page after h := by
    have := congrArg List.length h
    simp at this

theorem Inv.lose (h : Inv chatId s) (id : ℤ) : Inv chatId (s.lose id) := by
  refine { h with under := ?_, kept := ?_, started := ?_, complete := ?_ }
  · intro call hcall
    obtain ⟨before, hbefore, rfl⟩ := Option.map_eq_some_iff.mp hcall
    obtain ⟨hinv, hcursor, ⟨kept, hkept, hsub⟩, hfollows⟩ := h.under before hbefore
    refine ⟨hinv.lose id, hcursor, ⟨_, congrArg (Option.map _) hkept, ?_⟩, ?_⟩
    rotate_left
    · exact ⟨hfollows.epoch, hfollows.since⟩
    intro other hother
    obtain ⟨hmem, hne⟩ := mem_filter.mp hother
    exact mem_filter.mpr ⟨hsub other hmem, hne⟩
  · intro kept hkept other hother
    obtain ⟨before, hbefore, rfl⟩ := Option.map_eq_some_iff.mp hkept
    exact h.kept before hbefore other (mem_filter.mp hother).1
  · exact fun hnone => h.started (Option.map_eq_none_iff.mp hnone)
  · intro kept hkept other hother
    obtain ⟨before, hbefore, rfl⟩ := Option.map_eq_some_iff.mp hkept
    exact h.complete before hbefore other (mem_filter.mp hother).1

theorem not_mem_kept_lose {id : ℤ} {call : HistoryCall} (hcall : (s.lose id).call = some call) :
    id ∉ call.kept := by
  obtain ⟨before, -, rfl⟩ := Option.map_eq_some_iff.mp hcall
  intro hmem
  simpa using (mem_filter.mp hmem).2

theorem Inv.vanish (h : Inv chatId s) (id : ℤ) :
    Inv chatId { s.lose id with store := s.store.erase id } := by
  refine { h.lose id with under := ?_, kept := ?_ }
  · intro call hcall
    obtain ⟨hinv, hcursor, hkept, hfollows⟩ := (h.lose id).under call hcall
    exact ⟨hinv.erase (not_mem_kept_lose hcall), hcursor, hkept, ⟨hfollows.epoch, hfollows.since⟩⟩
  · intro kept hkept other hother
    obtain ⟨before, hbefore, rfl⟩ := Option.map_eq_some_iff.mp hkept
    obtain ⟨hmem, hne⟩ := mem_filter.mp hother
    exact mem_filter.mpr ⟨h.kept before hbefore other hmem, hne⟩

theorem Inv.insert (h : Inv chatId s) (id : ℤ) : Inv chatId
    { s with
      store := s.store.insert id
      call := s.call.map fun call => { call with met := (s.store.insert id).ids ++ call.met } } := by
  refine { h with under := ?_, kept := ?_ }
  · intro call hcall
    obtain ⟨before, hbefore, rfl⟩ := Option.map_eq_some_iff.mp hcall
    obtain ⟨hinv, hcursor, hkept, hfollows⟩ := h.under before hbefore
    exact ⟨hinv.insert id, hcursor, hkept, ⟨hfollows.epoch, hfollows.since⟩⟩
  · intro kept hkept other hother
    exact MessageStore.mem_insert_of_mem (h.kept kept hkept other hother) id

theorem Inv.begin (h : Inv chatId s) (limit : ℕ) : Inv chatId (s.begin limit) := by
  have hstart : ∀ fence, s.session.fence.readFence = some fence → Inv chatId
      { s with
        failed := none
        call := some
          { limit
            cursor := s.position
            fence
            fetchAnchor := (s.position.map HistoryCursor.id).getD 0
            kept := s.store.ids
            met := s.store.ids }
        kept := some (s.kept.getD s.store.ids) } := by
    intro fence hfence
    have hsub : ∀ id ∈ s.kept.getD s.store.ids, id ∈ s.store.ids := by
      cases hkept : s.kept with
      | none => exact fun id hid => hid
      | some kept => exact h.kept kept hkept
    obtain ⟨hepoch, hsequence⟩ := readFence_eq hfence
    refine { h with under := ?_, kept := ?_, started := nofun, complete := ?_ }
    · rintro call ⟨⟩
      refine ⟨HistoryCall.Inv.begin chatId s.store limit s.position fence, rfl, ⟨_, rfl, hsub⟩, ?_⟩
      refine ⟨hepoch.le, fun _ => ?_⟩
      rw [hsequence]
      exact Journal.since_sequence
    · rintro kept ⟨⟩
      exact hsub
    · rintro kept ⟨⟩ id hid cursor hposition
      cases hkept : s.kept with
      | none => exact absurd hposition (by rw [h.started hkept]; exact nofun)
      | some kept =>
        rw [hkept] at hid
        exact h.complete kept hkept id hid cursor hposition
  have hfailed : ∀ failed, Inv chatId { s with failed } := fun _ =>
    ⟨h.tracked, h.under, h.kept, h.started, h.good, h.positive, h.sorted, h.complete, h.position,
      h.anchors⟩
  unfold HistoryReads.begin
  cases hfence : s.session.fence.readFence with
  | none => exact hfailed _
  | some fence =>
    have hfenced := hstart fence hfence
    have hrefused := hfailed (some .cursorUnusable)
    cases hposition : s.position with
    | none =>
      rw [hposition] at hfenced
      exact hfenced
    | some cursor =>
      rw [hposition] at hfenced hrefused
      dsimp only
      split
      · exact hfenced
      · exact hrefused

/-! ### The journal goes on -/

theorem Follows.step {call : HistoryCall} (h : Follows s.session call) (htracked : s.session.Tracked)
    {event : SessionEvent HistoryChange} (happend : ∀ change, event ≠ .append change) :
    Follows (s.session.step config event) call := by
  rcases @AccountSession.step_journal _ config s.session event happend with
    ⟨hepoch, hjournal⟩ | hepoch
  · refine ⟨by rw [hepoch]; exact h.epoch, fun heq => ?_⟩
    rw [hepoch] at heq
    rcases hjournal with hjournal | ⟨-, hjournal⟩
    · rw [hjournal]
      exact h.since heq
    · rw [hjournal]
      exact (h.since heq).clear
  · -- the call is of an epoch before
    have hlt := h.epoch.trans_lt htracked.epoch
    refine ⟨by rw [hepoch]; exact hlt.le, fun heq => ?_⟩
    rw [hepoch] at heq
    exact absurd heq hlt.ne

section

variable (h : Inv chatId s)
include h

theorem Inv.session {event : SessionEvent HistoryChange}
    (happend : ∀ change, event ≠ .append change) :
    Inv chatId { s with session := s.session.step config event } :=
  { h with
    tracked := h.tracked.step event
    under := fun call hcall => by
      obtain ⟨hinv, hcursor, hkept, hfollows⟩ := h.under call hcall
      exact ⟨hinv, hcursor, hkept, hfollows.step h.tracked happend⟩ }

theorem Inv.append (hknown : s.session.engine.world.known = true)
    {change : HistoryChange} (hlost : change.chatId = chatId ∧ change.deleted = true →
      ∀ call, s.call = some call → change.messageId ∉ call.kept) :
    Inv chatId
      { s with
        session := s.session.step config (.append change)
        call := s.call.map fun call => { call with told := call.told ++ [change] } } := by
  have hjournal : s.session.step config (.append change) =
      { s.session with journal := s.session.journal.append keptEvents change } := if_pos hknown
  refine { h with tracked := ?_, under := ?_ }
  · show (s.session.step config (.append change)).Tracked
    exact h.tracked.step _
  intro call hcall
  obtain ⟨before, hbefore, rfl⟩ := Option.map_eq_some_iff.mp hcall
  obtain ⟨hinv, hcursor, hkept, hfollows⟩ := h.under before hbefore
  refine ⟨hinv.tell fun hdeleted => hlost hdeleted before hbefore, hcursor, hkept, ?_⟩
  rw [hjournal]
  exact ⟨hfollows.epoch, fun heq => (hfollows.since heq).append keptEvents change⟩

theorem Inv.tell (hknown : s.session.engine.world.known = true)
    (change : HistoryChange) : Inv chatId
      (tell chatId { s with session := s.session.step config (.append change) } change) := by
  unfold HistoryReads.tell
  dsimp only
  split
  · rename_i hdeleted
    have hlose := @Inv.append config chatId _ (h.lose change.messageId) hknown change
      fun _ call hcall => not_mem_kept_lose hcall
    refine { hlose with under := fun call hcall => hlose.under call ?_ }
    -- it is lost before or after it is told
    obtain ⟨_, _, _, _, under, _, _, _⟩ := s
    cases under with
    | none => exact hcall
    | some before => exact hcall
  · rename_i hnot
    exact h.append hknown fun hdeleted => absurd hdeleted hnot

theorem Inv.sessionStep (event : SessionEvent HistoryChange) :
    Inv chatId (s.sessionStep config chatId event) := by
  cases event with
  | append change =>
    dsimp only [HistoryReads.sessionStep]
    split
    · rename_i hknown
      exact h.tell hknown change
    · rename_i hunknown
      have hsame : s.session.step config (.append change) = s.session := if_neg hunknown
      rw [hsame]
      exact h
  | engine event =>
    have hsession := @Inv.session config chatId s h (.engine event) nofun
    cases event with
    | restart => exact { hsession with under := fun _ => nofun }
    | _ => exact hsession
  | beginRead | updates => exact h.session nofun

/-! ### The call goes on and answers -/

theorem Inv.turn {call : HistoryCall} (hcall : s.call = some call)
    (hgoes : call.goesOn = true) (timeUp : Bool) {response : HistoryResponse}
    (hanswers : s.store.Answers call.fetchAnchor response) :
    Inv chatId { s with call := some (call.turn timeUp response) } := by
  refine { h with under := ?_ }
  rintro _ ⟨⟩
  obtain ⟨hinv, hcursor, hkept, hfollows⟩ := h.under call hcall
  obtain ⟨hcursor', hfence, hkept', htold⟩ := call.turn_frame timeUp response
  refine ⟨hinv.turn hgoes timeUp hanswers, hcursor'.trans hcursor, ?_, ?_, ?_⟩
  · rw [hkept']
    exact hkept
  · rw [hfence]
    exact hfollows.epoch
  · rw [hfence, htold]
    exact hfollows.since

end

theorem historyIds_append (pages : List HistoryPage) (page : HistoryPage) :
    historyIds (pages ++ [page]) = historyIds pages ++ page.items.map HistoryItem.id := by
  simp [historyIds]

theorem Inv.anchor_cases (h : Inv chatId s) {call : HistoryCall} (hcursor : call.cursor = s.position) :
    (call.anchor = 0 ∧ s.position = none ∧ historyIds s.pages = []) ∨
      ∃ cursor, s.position = some cursor ∧ call.anchor = cursor.id ∧ 0 < cursor.id ∧
        (historyIds s.pages).getLast? = some cursor.id := by
  have hposition := h.position
  unfold HistoryCall.anchor
  rw [hcursor]
  cases hcase : s.position with
  | none =>
    rw [hcase] at hposition
    exact Or.inl ⟨rfl, rfl, List.getLast?_eq_none_iff.mp hposition.symm⟩
  | some cursor =>
    rw [hcase] at hposition
    have hlast : (historyIds s.pages).getLast? = some cursor.id := hposition.symm
    exact Or.inr ⟨cursor, rfl, rfl, h.positive _ (mem_of_getLast? hlast), hlast⟩

theorem Inv.page (h : Inv chatId s) {call : HistoryCall} (hcursor : call.cursor = s.position)
    {ids : List ℤ} (hids : s.kept = some ids) (hkept : ∀ id ∈ ids, id ∈ call.kept)
    {page : HistoryPage} (hgood : page.Good) (hanchor : page.anchor = call.anchor)
    (hpage : page.kept = call.kept) (hpositive : ∀ item ∈ page.items, 0 < item.id)
    (memory : MessageMemory) :
    Inv chatId
      { s with
        memory
        call := none
        pages := s.pages ++ [page]
        position := page.nextCursor <|> s.position } := by
  have hmap : ∀ id ∈ page.items.map HistoryItem.id, ∃ item ∈ page.items, item.id = id :=
    fun id hid => mem_map.mp hid
  refine { h with under := fun _ => nofun, started := ?_, good := ?_, positive := ?_, sorted := ?_,
                  complete := ?_, position := ?_, anchors := ?_ }
  · intro hnone
    exact absurd (hids.symm.trans hnone) nofun
  · intro other hother
    rcases mem_append.mp hother with hold | hnew
    · exact h.good other hold
    · rwa [mem_singleton.mp hnew]
  · rw [historyIds_append]
    intro id hid
    rcases mem_append.mp hid with hold | hnew
    · exact h.positive id hold
    · obtain ⟨item, hitem, rfl⟩ := hmap id hnew
      exact hpositive item hitem
  · rw [historyIds_append]
    refine pairwise_append.mpr ⟨h.sorted, hgood.sorted, fun newer hnewer older holder => ?_⟩
    obtain ⟨item, hitem, rfl⟩ := hmap older holder
    rcases h.anchor_cases hcursor with ⟨-, -, hnil⟩ | ⟨cursor, -, heq, hpos, hlast⟩
    · rw [hnil] at hnewer
      cases hnewer
    · have hbelow := hgood.below (by omega) item hitem
      have := last_le h.sorted hlast newer hnewer
      omega
  · intro kept hkept' id hid cursor hposition hle
    rw [historyIds_append]
    obtain rfl : ids = kept := Option.some.inj (hids.symm.trans hkept')
    cases hlast : page.items.getLast? with
    | none =>
      have hnone : page.nextCursor = none := by
        have := hgood.cursor
        rw [hlast] at this
        exact Option.map_eq_none_iff.mp this
      rw [hnone] at hposition
      exact mem_append_left _ (h.complete ids hids id hid cursor hposition hle)
    | some last =>
      obtain ⟨next, hnext, hnextId⟩ : ∃ next, page.nextCursor = some next ∧ next.id = last.id := by
        have := hgood.cursor
        rw [hlast] at this
        exact Option.map_eq_some_iff.mp this
      rw [hnext] at hposition
      obtain rfl : next = cursor := Option.some.inj hposition
      rw [hnextId] at hle
      by_cases hunder : page.anchor = 0 ∨ id < page.anchor
      · refine mem_append_right _ (hgood.complete last hlast id ?_ hunder hle)
        rw [hpage]
        exact hkept id hid
      · -- it is of a page before
        refine mem_append_left _ ?_
        rcases h.anchor_cases hcursor with ⟨hzero, -, -⟩ | ⟨before, hbefore, heq, -, -⟩
        · omega
        · exact h.complete ids hids id hid before hbefore (by omega)
  · rw [historyIds_append, List.getLast?_append, List.getLast?_map]
    have hcursor' := hgood.cursor
    cases hlast : page.items.getLast? with
    | none =>
      rw [hlast] at hcursor'
      rw [Option.map_eq_none_iff.mp hcursor']
      exact h.position
    | some last =>
      rw [hlast] at hcursor'
      obtain ⟨next, hnext, hnextId⟩ := Option.map_eq_some_iff.mp hcursor'
      rw [hnext]
      exact congrArg some hnextId
  · intro before other after heq
    rcases eq_nil_or_concat after with rfl | ⟨init, final, rfl⟩
    · obtain ⟨rfl, rfl⟩ : s.pages = before ∧ page = other := by
        have := append_inj' heq rfl
        exact ⟨this.1, singleton_inj.mp this.2⟩
      rw [hanchor]
      rcases h.anchor_cases hcursor with ⟨hzero, -, hnil⟩ | ⟨cursor, -, hanchor', -, hlast⟩
      · rw [hzero, hnil]
        rfl
      · rw [hanchor', hlast]
        rfl
    · rw [concat_eq_append, ← cons_append, ← append_assoc] at heq
      exact h.anchors before other init (append_inj' heq rfl).1

theorem of_valid {fence : ReadFence} (h : s.session.fence.valid fence = true) :
    fence.epoch = s.session.epoch ∧
      ∀ first ∈ s.session.journal.first, first ≤ fence.sequence + 1 := by
  simp only [FenceState.valid, Bool.and_eq_true, decide_eq_true_eq] at h
  obtain ⟨⟨⟨⟨⟨-, -⟩, hepoch⟩, -⟩, -⟩, hfirst⟩ := h
  refine ⟨hepoch.symm, fun first hmem => ?_⟩
  change s.session.journal.first.all _ = true at hfirst
  rw [Option.mem_def.mp hmem] at hfirst
  simpa using hfirst

theorem Inv.answer (h : Inv chatId s) {call : HistoryCall} (hcall : s.call = some call) :
    Inv chatId (s.answer chatId put call) := by
  unfold HistoryReads.answer
  split
  · rename_i hvalid
    obtain ⟨hinv, hcursor, ⟨ids, hids, hkept⟩, hfollows⟩ := h.under call hcall
    have hsince := hfollows.since (of_valid hvalid).1
    exact h.page hcursor hids hkept
      (page_good put _ _ hinv (fun id hid => hinv.deletedSince_eq hsince hid) s.memory) rfl rfl
      (fun item hitem => hinv.positive _ (mem_ids_of_page put _ _ hinv s.memory item hitem)) _
  · exact { h with under := fun _ => nofun }

theorem Inv.step (h : Inv chatId s) (event : HistoryEvent) :
    Inv chatId (s.step config chatId put event) := by
  cases event with
  | session event => exact h.sessionStep event
  | insert id => exact h.insert id
  | vanish id => exact h.vanish id
  | remember id projection => exact { h with }
  | begin limit =>
    dsimp only [HistoryReads.step]
    split
    · exact h.begin limit
    · exact h
  | turn timeUp response =>
    dsimp only [HistoryReads.step]
    split
    · rename_i call hcall
      split
      · rename_i hturn
        exact h.turn hcall hturn.1 timeUp hturn.2
      · exact h
    · exact h
  | answer =>
    dsimp only [HistoryReads.step]
    split
    · rename_i call hcall
      split
      · exact h
      · exact h.answer hcall
    · exact h

theorem Inv.chained (h : Inv chatId s) : s.Chained where
  sorted := h.sorted
  complete kept hkept id hid cursor hcursor hle := h.complete kept hkept id hid cursor hcursor hle
  position := h.position
  anchors := h.anchors
  requests call hcall := by
    have hinv := (h.under call hcall).inv
    exact hinv.requests.trans hinv.attempt

/-! ### What was deleted -/

def Settled (chatId : ℤ) (s : HistoryReads) : Prop :=
  s.session.journal.events = [] → ∀ call, s.call = some call → call.fence.epoch = s.session.epoch →
    ∀ change ∈ call.told, change.chatId = chatId → change.deleted = false

theorem Settled.session (hsettled : Settled chatId s) (h : Inv chatId s)
    {event : SessionEvent HistoryChange} (happend : ∀ change, event ≠ .append change)
    (hcareful : Careful config chatId s (.session event)) :
    Settled chatId { s with session := s.session.step config event } := by
  intro hevents call hcall hepoch'
  rcases @AccountSession.step_journal _ config s.session event happend with
    ⟨hepoch, hjournal⟩ | hepoch
  · rw [hepoch] at hepoch'
    rcases hjournal with hjournal | ⟨⟨e, rfl, hreset⟩, -⟩
    · rw [hjournal] at hevents
      exact hsettled hevents call hcall hepoch'
    · exact hcareful hreset call hcall
  · rw [hepoch] at hepoch'
    have := (h.under call hcall).follows.epoch.trans_lt h.tracked.epoch
    omega

theorem Settled.of_calls (hsettled : Settled chatId s) {s' : HistoryReads}
    (hsession : s'.session = s.session)
    (hcalls : ∀ call, s'.call = some call → call.told = [] ∨
      ∃ before, s.call = some before ∧ call.fence = before.fence ∧ call.told = before.told) :
    Settled chatId s' := by
  intro hevents call hcall hepoch
  rw [hsession] at hevents hepoch
  rcases hcalls call hcall with hnone | ⟨before, hbefore, hfence, htold⟩
  · rw [hnone]
    exact fun _ => nofun
  · rw [htold]
    exact hsettled hevents before hbefore (by rw [← hfence]; exact hepoch)

theorem Settled.step (hsettled : Settled chatId s) (h : Inv chatId s) {event : HistoryEvent}
    (hcareful : Careful config chatId s event) : Settled chatId (s.step config chatId put event) := by
  cases event with
  | session event =>
    cases event with
    | append change =>
      dsimp only [HistoryReads.step, HistoryReads.sessionStep]
      split
      · rename_i hknown
        have hjournal : s.session.step config (.append change) =
            { s.session with journal := s.session.journal.append keptEvents change } := if_pos hknown
        have hevents := s.session.journal.append_events_ne_nil (by decide : 0 < keptEvents) change
        rw [hjournal]
        unfold HistoryReads.tell
        split <;> exact fun hnil => absurd hnil hevents
      · rename_i hunknown
        have hsame : s.session.step config (.append change) = s.session := if_neg hunknown
        rw [hsame]
        exact hsettled
    | engine event =>
      have hsession := @Settled.session config chatId s hsettled h (.engine event) nofun hcareful
      cases event with
      | restart => exact fun _ _ => nofun
      | _ => exact hsession
    | beginRead | updates => exact hsettled.session h nofun hcareful
  | insert id | vanish id =>
    refine hsettled.of_calls rfl fun call hcall => Or.inr ?_
    obtain ⟨before, hbefore, rfl⟩ := Option.map_eq_some_iff.mp hcall
    exact ⟨before, hbefore, rfl, rfl⟩
  | remember id projection => exact hsettled
  | begin limit =>
    dsimp only [HistoryReads.step]
    split
    · unfold HistoryReads.begin
      split
      · exact hsettled
      · rename_i fence hfence
        split
        · refine hsettled.of_calls rfl ?_
          rintro call ⟨⟩
          exact Or.inl rfl
        · split
          · refine hsettled.of_calls rfl ?_
            rintro call ⟨⟩
            exact Or.inl rfl
          · exact hsettled
    · exact hsettled
  | turn timeUp response =>
    dsimp only [HistoryReads.step]
    split
    · rename_i before hbefore
      split
      · refine hsettled.of_calls rfl ?_
        rintro call ⟨⟩
        obtain ⟨-, hfence, -, htold⟩ := before.turn_frame timeUp response
        exact Or.inr ⟨before, hbefore, hfence, htold⟩
      · exact hsettled
    · exact hsettled
  | answer =>
    dsimp only [HistoryReads.step]
    split
    · split
      · exact hsettled
      · unfold HistoryReads.answer
        split <;> exact fun _ _ => nofun
    · exact hsettled

theorem step_pages {event : HistoryEvent} (h : event ≠ .answer) :
    (s.step config chatId put event).pages = s.pages := by
  cases event with
  | session event =>
    cases event with
    | append change =>
      dsimp only [HistoryReads.step, HistoryReads.sessionStep, HistoryReads.tell]
      split
      · split <;> rfl
      · rfl
    | engine event => cases event <;> rfl
    | beginRead => rfl
    | updates => rfl
  | begin limit =>
    dsimp only [HistoryReads.step, HistoryReads.begin]
    split
    · split
      · rfl
      · split
        · rfl
        · split <;> rfl
    · rfl
  | turn timeUp response =>
    dsimp only [HistoryReads.step]
    split
    · split <;> rfl
    · rfl
  | answer => exact absurd rfl h
  | insert | vanish | remember => rfl

theorem withoutDeleted_step (hsettled : Settled chatId s) (h : Inv chatId s)
    (hpages : ∀ page ∈ s.pages, page.WithoutDeleted chatId) (event : HistoryEvent) :
    ∀ page ∈ (s.step config chatId put event).pages, page.WithoutDeleted chatId := by
  by_cases hanswer : event = .answer
  · subst hanswer
    dsimp only [HistoryReads.step]
    split
    · rename_i call hcall
      split
      · exact hpages
      · unfold HistoryReads.answer
        split
        · rename_i hvalid
          obtain ⟨hepoch, hfirst⟩ := of_valid hvalid
          obtain ⟨hinv, -, -, hfollows⟩ := h.under call hcall
          intro page hpage
          rcases mem_append.mp hpage with hold | hnew
          · exact hpages page hold
          · rw [mem_singleton.mp hnew]
            exact page_withoutDeleted put hinv (hfollows.since hepoch) hfirst
              (fun hevents => hsettled hevents call hcall hepoch) s.memory
        · exact hpages
    · exact hpages
  · rw [step_pages hanswer]
    exact hpages

end HistoryReads

open Transition

/-- **Pages of a history chain**, but for sessions that are reset in their epoch. In every run each page
is a segment of what TDLib has stored, newest first, and the pages of a chain have no message twice and
leave none out. Where no `logout` and no `remove` resets the session inside its epoch after a call was
told of a message that is deleted, no page has a message that was reported to be deleted. -/
theorem pages_of_history {config : Config} {chatId : ℤ}
    {put : HistoryItem → MessageMemory → MessageMemory} {events : List HistoryEvent} {s : HistoryReads}
    (hrun : Run (fun s e s' => HistoryReads.step config chatId put s e = s') {} events s) :
    (∀ page ∈ s.pages, page.Good) ∧ s.Chained ∧
      (Run (Within (HistoryReads.Careful config chatId)
          fun s e s' => HistoryReads.step config chatId put s e = s') {} events s →
        ∀ page ∈ s.pages, page.WithoutDeleted chatId) := by
  have hinv : HistoryReads.Inv chatId s := by
    refine hrun.invariant (HistoryReads.Inv chatId) ?_ (HistoryReads.Inv.init chatId)
    rintro s event _ h rfl
    exact h.step event
  refine ⟨hinv.good, hinv.chained, fun hcareful => ?_⟩
  have hall : HistoryReads.Inv chatId s ∧ HistoryReads.Settled chatId s ∧
      ∀ page ∈ s.pages, page.WithoutDeleted chatId := by
    refine hcareful.invariant (fun s => HistoryReads.Inv chatId s ∧ HistoryReads.Settled chatId s ∧
      ∀ page ∈ s.pages, page.WithoutDeleted chatId) ?_
      ⟨HistoryReads.Inv.init chatId, fun _ _ => nofun, fun _ => nofun⟩
    rintro s event _ ⟨h, hsettled, hpages⟩ ⟨hok, rfl⟩
    exact ⟨h.step event, hsettled.step h hok, HistoryReads.withoutDeleted_step hsettled h hpages event⟩
  exact hall.2.2

/-! ## A `logout` that fails while a page is read -/

def readyAccount : List EngineEvent :=
  [.call (.reconcile { generation := 1, revision := 1, lifecycle := .active })] ++
    advances ([.done, .done, .done] ++ sampleActivation ++ [.done, .done, .done]) ++
    [.authorization 1 .ready]

/-- Two pages of the chat 7 are read, and a message of the first is deleted meanwhile. -/
def twoHistoryPages : List HistoryEvent :=
  readyAccount.map (fun event => .session (.engine event)) ++
    [.insert 3, .insert 5, .insert 8, .begin 2,
      .turn false (.messages [some ⟨8, 0⟩]), .vanish 8, .session (.append ⟨7, 8, true⟩),
      .turn false (.messages [some ⟨5, 0⟩]), .answer,
      .begin 2, .turn false (.messages [some ⟨5, 0⟩, some ⟨3, 0⟩]), .turn false (.messages []), .answer]

/-- The pages hold 5 and 3: 8 is left out, and 5 is not answered again. -/
theorem pages_of_history_deleted :
    let s := twoHistoryPages.foldl (HistoryReads.step sampleConfig 7 fun _ memory => memory) {}
    historyIds s.pages = [5, 3] ∧ (∀ page ∈ s.pages, page.Good) ∧ s.Chained ∧
      ∀ page ∈ s.pages, page.WithoutDeleted 7 := by
  intro s
  have hrun : Run (Within (HistoryReads.Careful sampleConfig 7) fun s e s' =>
      HistoryReads.step sampleConfig 7 (fun _ memory => memory) s e = s') {} twoHistoryPages s :=
    run_of_check _ (by decide +kernel)
  obtain ⟨hgood, hchained, hdeleted⟩ := pages_of_history (hrun.mono fun _ _ _ h => h.2)
  exact ⟨by decide +kernel, hgood, hchained, hdeleted hrun⟩

/-- A `logout` is accepted, its first manifest cannot be written, and the account is reconciled
again. -/
def failedLogout : List EngineEvent :=
  let sample : AccountCommand := { generation := 1, revision := 2, lifecycle := .active }
  [.call (.logout { sample with logoutOperationId := some 5 })] ++
    advances [.done, .threw (.storage .ioError), .done] ++
    [.call (.reconcile { sample with revision := 3 })] ++
    advances [.done, .done, .done, .done, .done, .done, .done]

def deletedBefore : List HistoryEvent :=
  readyAccount.map (fun event => .session (.engine event)) ++
    [.insert 5, .begin 1, .turn false (.messages [some ⟨5, 0⟩]), .vanish 5,
      .session (.append ⟨7, 5, true⟩)] ++
    failedLogout.map (fun event => .session (.engine event)) ++ [.answer]

/-- **A message that was reported to be deleted** while the page was read is answered. -/
theorem deleted_answered :
    let s := deletedBefore.foldl (HistoryReads.step sampleConfig 7 fun _ memory => memory) {}
    Run (fun s e s' => HistoryReads.step sampleConfig 7 (fun _ memory => memory) s e = s') {}
        deletedBefore s ∧
      s.store.ids = [] ∧ historyIds s.pages = [5] ∧
      ¬ ∀ page ∈ s.pages, page.WithoutDeleted 7 := by
  intro s
  refine ⟨(run_function_iff _ _ _ _).mpr rfl, by decide +kernel, by decide +kernel, ?_⟩
  intro hall
  have hpage : ∃ page ∈ s.pages, ∃ item ∈ page.items, reportedDeleted 7 page.told item.id = true := by
    decide +kernel
  obtain ⟨page, hmem, item, hitem, hdeleted⟩ := hpage
  rw [hall page hmem item hitem] at hdeleted
  cases hdeleted

end Runtime
