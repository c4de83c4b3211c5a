import TeleBezel.Link.Staged

/-!
# Items without gaps

What the merges of the watch make of items without gaps. A page of the newest messages comes after
the items, a page of older ones before them, and `merge_albums` makes one item of an album that came
in several: what lies between the items is in the block of one, each time.
-/

open List

namespace Link

open Phone Watch Block

/-- The items are messages up to the newest, and all messages from the first item on are in the block
of one. -/
structure Gapless (chat : List Message) (horizon : ℕ) (items : List TbMessage) : Prop where
  order : items.Pairwise fun a b => a.key < b.key
  mem : ∀ item ∈ items, item.key ≤ horizon ∧ ∃ x ∈ chat, x.id = item.key ∧ album x = item.album
  covers : ∀ first ∈ items.head?, ∀ m ∈ chat, first.key ≤ m.id → m.id ≤ horizon →
    ∃ item ∈ items, Together chat m.id item.key

def Reaches (chat : List Message) (horizon : ℕ) (items : List TbMessage) (bound : ℕ) : Prop :=
  match items.head? with
  | none => ∀ m ∈ chat, bound ≤ m.id ↔ horizon < m.id
  | some first => ∀ m ∈ chat, bound ≤ m.id → m.id < first.key → Together chat m.id first.key

section Items

variable {config : TbHistoryConfig} {items staging : List TbMessage}

theorem appendStaging_eq (horder : (items ++ staging).Pairwise fun a b => a.key < b.key)
    (hroom : items.length + staging.length ≤ config.capacity) :
    appendStaging config items staging = items ++ staging := by
  induction staging generalizing items with
  | nil => exact (append_nil items).symm
  | cons item staging ih =>
    have hnewer : ¬ (items.getLast?.any (fun last => item.key ≤ last.key) = true ∨
        config.capacity ≤ items.length) := by
      rintro (hold | hfull)
      · obtain ⟨last, hlast, hle⟩ := (Option.any_eq_true _ _).mp hold
        have hlt := (pairwise_append.mp horder).2.2 last (mem_of_getLast? hlast) item
          mem_cons_self
        simp only [decide_eq_true_eq] at hle
        omega
      · rw [length_cons] at hroom
        omega
    rw [appendStaging, if_neg hnewer]
    have happend : items ++ item :: staging = (items ++ [item]) ++ staging := by simp
    rw [happend] at horder ⊢
    refine ih horder ?_
    rw [length_append, length_singleton]
    rw [length_cons] at hroom
    omega

theorem keptBefore_spec (horder : items.Pairwise fun a b => a.key < b.key) (key : ℕ) :
    ∃ dropped, items = keptBefore key items ++ dropped ∧ (∀ item ∈ dropped, key ≤ item.key) ∧
      ∀ item ∈ keptBefore key items, item.key < key := by
  refine ⟨items.rtakeWhile fun item => key ≤ item.key, ?_, ?_, ?_⟩
  · exact rdropWhile_append_rtakeWhile.symm
  · intro item hitem
    simpa using mem_rtakeWhile_imp hitem
  · intro item hitem
    have hne : keptBefore key items ≠ [] := ne_nil_of_mem hitem
    have hlast : ((keptBefore key items).getLast hne).key < key := by
      have h := rdropWhile_last_not (fun item : TbMessage => key ≤ item.key) items hne
      simpa [keptBefore] using h
    have hsorted : (keptBefore key items).Pairwise fun a b => a.key < b.key :=
      horder.sublist (List.rdropWhile_prefix _ _).sublist
    rw [← dropLast_append_getLast hne] at hitem hsorted
    rcases mem_append.mp hitem with hinit | hone
    · have hlt := (pairwise_append.mp hsorted).2.2 item hinit _ (mem_singleton_self _)
      exact hlt.trans hlast
    · rw [mem_singleton.mp hone]
      exact hlast

theorem evictNewest_eq {history : TbHistory}
    (h : (history.evictNewest config).truncated = false) :
    history.evictNewest config = history := by
  have hloop : ∀ (fuel : ℕ) (history : TbHistory), history.truncated = true →
      (TbHistory.evictLoop config fuel history).truncated = true := by
    intro fuel
    induction fuel with
    | zero => exact fun _ h => h
    | succ fuel ih =>
      intro history htruncated
      rw [TbHistory.evictLoop]
      split
      · exact ih _ rfl
      · exact htruncated
  unfold TbHistory.evictNewest at h ⊢
  cases hfuel : history.items.length with
  | zero => rfl
  | succ fuel =>
    rw [hfuel, TbHistory.evictLoop] at h
    rw [TbHistory.evictLoop]
    split at h
    · exact absurd h (by rw [hloop fuel _ rfl]; decide)
    · rw [if_neg (by assumption)]

end Items

section Albums

variable {chat : List Message} (hchat : Ordered chat)
include hchat

theorem eq_of_id_eq {x y : Message} (hx : x ∈ chat) (hy : y ∈ chat) (h : x.id = y.id) : x = y := by
  by_contra hne
  have hsymm : Std.Symm fun a b : Message => a.id ≠ b.id := ⟨fun _ _ h => h.symm⟩
  have hall : chat.Pairwise fun a b => a.id ≠ b.id := hchat.imp fun h => h.ne
  exact hall.forall hx hy hne h

theorem album_eq_of_together {x y : Message} (hx : x ∈ chat) (hy : y ∈ chat)
    (h : Together chat x.id y.id) : album x = album y := by
  rcases h with heq | ⟨a, -, hall⟩
  · rw [eq_of_id_eq hchat hx hy heq]
  · rw [hall x hx (min_le_left _ _) (le_max_left _ _),
      hall y hy (min_le_right _ _) (le_max_right _ _)]

theorem together_of_album {last item : TbMessage} {rest : List TbMessage}
    (horder : (last :: item :: rest).Pairwise fun a b => a.key < b.key)
    (hmem : ∀ item' ∈ last :: item :: rest, ∃ x ∈ chat, x.id = item'.key ∧ album x = item'.album)
    (hcovers : ∀ m ∈ chat, last.key ≤ m.id → (∃ item' ∈ last :: item :: rest, m.id ≤ item'.key) →
      ∃ item' ∈ last :: item :: rest, Together chat m.id item'.key)
    (hsome : item.album ≠ 0) (hsame : last.album = item.album) :
    Together chat last.key item.key := by
  have hlt : last.key < item.key :=
    (pairwise_cons.mp horder).1 item mem_cons_self
  have hrest : ∀ later ∈ rest, item.key < later.key :=
    (pairwise_cons.mp (pairwise_cons.mp horder).2).1
  obtain ⟨y, hy, hyid, hyalbum⟩ := hmem last mem_cons_self
  obtain ⟨z, hz, hzid, hzalbum⟩ := hmem item (mem_cons_of_mem _ mem_cons_self)
  refine Or.inr ⟨item.album, hsome, fun x hx hmin hmax => ?_⟩
  rw [min_eq_left hlt.le] at hmin
  rw [max_eq_right hlt.le] at hmax
  obtain ⟨found, hfound, htogether⟩ := hcovers x hx hmin
    ⟨item, mem_cons_of_mem _ mem_cons_self, hmax⟩
  rcases mem_cons.mp hfound with rfl | hlater
  · rw [← hyid] at htogether
    rw [album_eq_of_together hchat hx hy htogether, hyalbum, hsame]
  · have hle : item.key ≤ found.key := by
      rcases mem_cons.mp hlater with rfl | hmore
      · exact le_rfl
      · exact (hrest found hmore).le
    have hitem : Together chat x.id item.key :=
      htogether.cut ((min_le_left _ _).trans hmax) (hle.trans (le_max_right _ _))
    rw [← hzid] at hitem
    rw [album_eq_of_together hchat hx hz hitem, hzalbum]

/-- What the loop of `merge_albums` leaves: items of those that it was given, the first one in the
block of the first, and for each one an item in its block. -/
structure Merged (chat : List Message) (items merged : List TbMessage) : Prop where
  order : merged.Pairwise fun a b => a.key < b.key
  mem : ∀ item ∈ merged, ∃ before ∈ items, before.key = item.key ∧ before.album = item.album
  kept : ∀ item ∈ items, ∃ after ∈ merged, Together chat item.key after.key
  head : ∀ first ∈ items.head?, ∃ head ∈ merged.head?, first.key ≤ head.key ∧
    Together chat first.key head.key

omit hchat in
theorem Merged.cons {last item : TbMessage} {rest merged : List TbMessage}
    (h : Merged chat (item :: rest) merged)
    (horder : (last :: item :: rest).Pairwise fun a b => a.key < b.key) :
    Merged chat (last :: item :: rest) (last :: merged) where
  order := by
    refine pairwise_cons.mpr ⟨fun later hlater => ?_, h.order⟩
    obtain ⟨before, hbefore, hkey, -⟩ := h.mem later hlater
    rw [← hkey]
    exact (pairwise_cons.mp horder).1 before hbefore
  mem := by
    intro found hfound
    rcases mem_cons.mp hfound with rfl | hlater
    · exact ⟨found, mem_cons_self, rfl, rfl⟩
    · obtain ⟨before, hbefore, hsame⟩ := h.mem found hlater
      exact ⟨before, mem_cons_of_mem _ hbefore, hsame⟩
  kept := by
    intro found hfound
    rcases mem_cons.mp hfound with rfl | hlater
    · exact ⟨found, mem_cons_self, InBlock.refl chat found.key⟩
    · obtain ⟨after, hafter, htogether⟩ := h.kept found hlater
      exact ⟨after, mem_cons_of_mem _ hafter, htogether⟩
  head := by
    intro first hfirst
    exact ⟨first, hfirst, le_rfl, InBlock.refl chat first.key⟩

omit hchat in
theorem together_one {last item one : TbMessage} (htogether : Together chat last.key item.key)
    (hone : (one.key = last.key ∧ one.album = last.album) ∨
      (one.key = item.key ∧ one.album = item.album)) (hlt : last.key < item.key) :
    last.key ≤ one.key ∧ one.key ≤ item.key ∧ Together chat last.key one.key ∧
      Together chat item.key one.key := by
  rcases hone with ⟨hkey, -⟩ | ⟨hkey, -⟩
  · rw [hkey]
    exact ⟨le_rfl, hlt.le, InBlock.refl chat last.key, htogether.symm⟩
  · rw [hkey]
    exact ⟨hlt.le, le_rfl, htogether, InBlock.refl chat item.key⟩

omit hchat in
theorem Merged.join {last item one : TbMessage} {rest merged : List TbMessage}
    (h : Merged chat (one :: rest) merged) (htogether : Together chat last.key item.key)
    (hone : (one.key = last.key ∧ one.album = last.album) ∨
      (one.key = item.key ∧ one.album = item.album)) (hlt : last.key < item.key)
    (hmem : ∃ x ∈ chat, x.id = one.key) : Merged chat (last :: item :: rest) merged := by
  obtain ⟨hle, -, hlast, hitem⟩ := together_one htogether hone hlt
  refine ⟨h.order, ?_, ?_, ?_⟩
  · intro found hfound
    obtain ⟨before, hbefore, hkey, halbum⟩ := h.mem found hfound
    rcases mem_cons.mp hbefore with rfl | hlater
    · rcases hone with ⟨hk, ha⟩ | ⟨hk, ha⟩
      · exact ⟨last, mem_cons_self, hk.symm.trans hkey, ha.symm.trans halbum⟩
      · exact ⟨item, mem_cons_of_mem _ mem_cons_self, hk.symm.trans hkey,
          ha.symm.trans halbum⟩
    · exact ⟨before, mem_cons_of_mem _ (mem_cons_of_mem _ hlater), hkey, halbum⟩
  · obtain ⟨after, hafter, hjoined⟩ := h.kept one mem_cons_self
    intro found hfound
    rcases mem_cons.mp hfound with rfl | hlater
    · exact ⟨after, hafter, hlast.trans hmem hjoined⟩
    · rcases mem_cons.mp hlater with rfl | hmore
      · exact ⟨after, hafter, hitem.trans hmem hjoined⟩
      · exact h.kept found (mem_cons_of_mem _ hmore)
  · intro first hfirst
    obtain rfl := Option.some.inj hfirst
    obtain ⟨head, hhead, hge, hjoined⟩ := h.head one rfl
    exact ⟨head, hhead, hle.trans hge, hlast.trans hmem hjoined⟩

def Covered (chat : List Message) (items : List TbMessage) : Prop :=
  ∀ first ∈ items.head?, ∀ m ∈ chat, first.key ≤ m.id → (∃ item ∈ items, m.id ≤ item.key) →
    ∃ item ∈ items, Together chat m.id item.key

theorem merged_mergeAlbumsFrom {rest : List TbMessage} :
    ∀ {last : TbMessage}, ((last :: rest).Pairwise fun a b => a.key < b.key) →
      (∀ item ∈ last :: rest, ∃ x ∈ chat, x.id = item.key ∧ album x = item.album) →
      Covered chat (last :: rest) → Merged chat (last :: rest) (mergeAlbumsFrom last rest) := by
  induction rest with
  | nil =>
    intro last horder _ _
    refine ⟨horder, ?_, ?_, ?_⟩
    · exact fun item hitem => ⟨item, hitem, rfl, rfl⟩
    · exact fun item hitem => ⟨item, hitem, InBlock.refl chat item.key⟩
    · exact fun first hfirst => ⟨first, hfirst, le_rfl, InBlock.refl chat first.key⟩
  | cons item rest ih =>
    intro last horder hmem hcovers
    have hlt : last.key < item.key := (pairwise_cons.mp horder).1 item mem_cons_self
    have hrest := (pairwise_cons.mp horder).2
    have hitem : item ∈ last :: item :: rest := mem_cons_of_mem _ mem_cons_self
    rw [mergeAlbumsFrom]
    split
    · rename_i hone
      have htogether := together_of_album hchat horder hmem (hcovers last rfl) hone.1 hone.2
      -- the item that is kept has the number of one of the two
      have hjoined : ((joined last item).key = last.key ∧ (joined last item).album = last.album) ∨
          ((joined last item).key = item.key ∧ (joined last item).album = item.album) := by
        unfold joined
        split
        · exact Or.inr ⟨rfl, rfl⟩
        · exact Or.inl ⟨rfl, rfl⟩
      have hmessage : ∃ x ∈ chat, x.id = (joined last item).key ∧
          album x = (joined last item).album := by
        rcases hjoined with ⟨hkey, halbum⟩ | ⟨hkey, halbum⟩
        · rw [hkey, halbum]
          exact hmem last mem_cons_self
        · rw [hkey, halbum]
          exact hmem item hitem
      obtain ⟨hge, hle, hlast, hother⟩ := together_one htogether hjoined hlt
      refine Merged.join (ih ?_ ?_ ?_) htogether hjoined hlt
        (hmessage.imp fun x hx => ⟨hx.1, hx.2.1⟩)
      · refine pairwise_cons.mpr ⟨fun later hlater => ?_, (pairwise_cons.mp hrest).2⟩
        exact hle.trans_lt ((pairwise_cons.mp hrest).1 later hlater)
      · intro found hfound
        rcases mem_cons.mp hfound with rfl | hlater
        · exact hmessage
        · exact hmem found (mem_cons_of_mem _ (mem_cons_of_mem _ hlater))
      · intro first hfirst m hm hfrom hupper
        obtain rfl := Option.some.inj hfirst
        have hupper' : ∃ found ∈ last :: item :: rest, m.id ≤ found.key := by
          obtain ⟨upper, hupper, hto⟩ := hupper
          rcases mem_cons.mp hupper with rfl | hlater
          · exact ⟨item, hitem, hto.trans hle⟩
          · exact ⟨upper, mem_cons_of_mem _ (mem_cons_of_mem _ hlater), hto⟩
        obtain ⟨found, hfound, hm'⟩ := hcovers last rfl m hm (hge.trans hfrom) hupper'
        obtain ⟨x, hx, hid, -⟩ := hmem found hfound
        rcases mem_cons.mp hfound with rfl | hlater
        · exact ⟨_, mem_cons_self, hm'.trans ⟨x, hx, hid⟩ hlast⟩
        · rcases mem_cons.mp hlater with rfl | hmore
          · exact ⟨_, mem_cons_self, hm'.trans ⟨x, hx, hid⟩ hother⟩
          · exact ⟨found, mem_cons_of_mem _ hmore, hm'⟩
    · refine Merged.cons (ih hrest ?_ ?_) horder
      · exact fun found hfound => hmem found (mem_cons_of_mem _ hfound)
      · intro first hfirst m hm hge hupper
        obtain rfl := Option.some.inj hfirst
        obtain ⟨upper, hupper, hle⟩ := hupper
        obtain ⟨found, hfound, htogether⟩ := hcovers last rfl m hm (hlt.le.trans hge)
          ⟨upper, mem_cons_of_mem _ hupper, hle⟩
        rcases mem_cons.mp hfound with rfl | hlater
        · refine ⟨item, mem_cons_self, htogether.cut ?_ ?_⟩
          · exact (min_le_right _ _).trans hlt.le
          · exact hge.trans (le_max_left _ _)
        · exact ⟨found, hlater, htogether⟩

variable {horizon bound : ℕ} {items : List TbMessage}

theorem Gapless.merged (h : Gapless chat horizon items) : Merged chat items (mergeAlbums items) := by
  cases items with
  | nil => exact ⟨List.Pairwise.nil, nofun, nofun, nofun⟩
  | cons first rest =>
    refine merged_mergeAlbumsFrom hchat h.order (fun item hitem => (h.mem item hitem).2) ?_
    intro head hhead m hm hge hupper
    obtain ⟨item, hitem, hle⟩ := hupper
    exact h.covers head hhead m hm hge (hle.trans (h.mem item hitem).1)

theorem Gapless.mergeAlbums (h : Gapless chat horizon items) :
    Gapless chat horizon (mergeAlbums items) := by
  have hmerged := h.merged hchat
  refine ⟨hmerged.order, ?_, ?_⟩
  · intro item hitem
    obtain ⟨before, hbefore, hkey, halbum⟩ := hmerged.mem item hitem
    rw [← hkey, ← halbum]
    exact h.mem before hbefore
  · intro head hhead m hm hge hle
    cases items with
    | nil => exact absurd hhead (by simp [Watch.mergeAlbums])
    | cons first rest =>
      obtain ⟨head', hhead', hfirst, -⟩ := hmerged.head first rfl
      obtain rfl : head' = head := Option.some.inj (hhead'.symm.trans hhead)
      obtain ⟨item, hitem, htogether⟩ := h.covers first rfl m hm (hfirst.trans hge) hle
      obtain ⟨x, hx, hid, -⟩ := (h.mem item hitem).2
      obtain ⟨after, hafter, hjoined⟩ := hmerged.kept item hitem
      exact ⟨after, hafter, htogether.trans ⟨x, hx, hid⟩ hjoined⟩

theorem Reaches.mergeAlbums (h : Reaches chat horizon items bound)
    (hgapless : Gapless chat horizon items) :
    Reaches chat horizon (Watch.mergeAlbums items) bound := by
  have hmerged := hgapless.merged hchat
  cases items with
  | nil => exact h
  | cons first rest =>
    obtain ⟨head, hhead, hfirst, htogether⟩ := hmerged.head first rfl
    have hhead' : (Watch.mergeAlbums (first :: rest)).head? = some head := hhead
    unfold Reaches at h ⊢
    rw [hhead']
    intro m hm hbound hlt
    by_cases hbefore : m.id < first.key
    · obtain ⟨x, hx, hid, -⟩ := (hgapless.mem first mem_cons_self).2
      exact (h m hm hbound hbefore).trans ⟨x, hx, hid⟩ htogether
    · exact htogether.between (by simp [not_lt.mp hbefore]) (by simp [hlt.le])

end Albums

section Pages

variable {chat page : List Message} {horizon bound n : ℕ} {items staging kept : List TbMessage}

section

variable (horder : items.Pairwise fun a b => a.key < b.key) {first item : TbMessage} (hfirst :
  first ∈ items.head?) (hitem : item ∈ items)
include horder first item hfirst hitem

theorem head_le : first.key ≤ item.key := by
  cases items with
  | nil => exact absurd hitem not_mem_nil
  | cons head rest =>
    obtain rfl := Option.some.inj hfirst
    rcases mem_cons.mp hitem with rfl | hlater
    · exact le_rfl
    · exact ((pairwise_cons.mp horder).1 item hlater).le

theorem together_head {m : ℕ}
    (h : Together chat m item.key) (hlt : m ≤ first.key) : Together chat m first.key := by
  have hle := head_le horder hfirst hitem
  exact h.cut ((min_le_left _ _).trans hlt) (hle.trans (le_max_right _ _))

end

theorem gapless_page (hchat : Ordered chat)
    (hstaged : Staged chat (pageOf chat none n) staging)
    (hhorizon : ∀ x ∈ pageOf chat none n, x.id ≤ horizon) : Gapless chat horizon staging where
  order := hstaged.order
  mem := by
    intro item hitem
    obtain ⟨x, hx, hid, halbum⟩ := hstaged.mem item hitem
    refine ⟨?_, x, (stretch_pageOf hchat none n).mem x hx, hid, halbum⟩
    rw [← hid]
    exact hhorizon x hx
  covers := by
    intro first hfirst m hm hge _
    obtain ⟨x, hx, hid, -⟩ := hstaged.mem first (mem_of_mem_head? hfirst)
    refine hstaged.covers m (mem_pageOf hchat hm rfl hx ?_)
    rw [hid]
    exact hge

theorem Gapless.append {dropped : List TbMessage} {horizon' : ℕ} (hchat : Ordered chat)
    (h : Gapless chat horizon (kept ++ dropped))
    (hstaged : Staged chat (pageOf chat none n) staging)
    (hhorizon : ∀ x ∈ chat, x.id ≤ horizon') {smallest : TbMessage}
    (hsmallest : smallest ∈ staging.head?) (hkept : ∀ item ∈ kept, item.key < smallest.key)
    (hdropped : ∀ item ∈ dropped, smallest.key ≤ item.key)
    (hbetween : ∀ first ∈ (kept ++ dropped).head?, ∀ m ∈ chat, first.key ≤ m.id →
      m ∉ pageOf chat none n → ∃ item ∈ kept ++ dropped, Together chat m.id item.key) :
    Gapless chat horizon' (kept ++ staging) where
  order := by
    refine pairwise_append.mpr ⟨(pairwise_append.mp h.order).1, hstaged.order, ?_⟩
    intro item hitem new hnew
    exact (hkept item hitem).trans_le (head_le hstaged.order hsmallest hnew)
  mem := by
    intro item hitem
    rcases mem_append.mp hitem with hold | hnew
    · obtain ⟨x, hx, hid, halbum⟩ := (h.mem item (mem_append_left _ hold)).2
      exact ⟨hid ▸ hhorizon x hx, x, hx, hid, halbum⟩
    · obtain ⟨x, hx, hid, halbum⟩ := hstaged.mem item hnew
      have hx' := (stretch_pageOf hchat none n).mem x hx
      exact ⟨hid ▸ hhorizon x hx', x, hx', hid, halbum⟩
  covers := by
    intro first hfirst m hm hge _
    obtain ⟨low, hlow, hlowid, -⟩ := hstaged.mem smallest (mem_of_mem_head? hsmallest)
    by_cases hpage : m ∈ pageOf chat none n
    · obtain ⟨item, hitem, htogether⟩ := hstaged.covers m hpage
      exact ⟨item, mem_append_right _ hitem, htogether⟩
    -- the message is before the page
    have hbefore : m.id < smallest.key := by
      by_contra hnot
      refine hpage (mem_pageOf hchat hm rfl hlow ?_)
      rw [hlowid]
      exact not_lt.mp hnot
    cases kept with
    | nil =>
      rw [nil_append] at hfirst
      obtain rfl : smallest = first := Option.some.inj (hsmallest.symm.trans hfirst)
      exact absurd hge (not_le.mpr hbefore)
    | cons head rest =>
      obtain ⟨item, hitem, htogether⟩ := hbetween first hfirst m hm hge hpage
      rcases mem_append.mp hitem with hold | hgone
      · exact ⟨item, mem_append_left _ hold, htogether⟩
      · refine ⟨smallest, mem_append_right _ (mem_of_mem_head? hsmallest), ?_⟩
        exact htogether.cut ((min_le_left _ _).trans hbefore.le)
          ((hdropped item hgone).trans (le_max_right _ _))

theorem reaches_page (hchat : Ordered chat) (hstaged : Staged chat (pageOf chat none n) staging)
    (horder : (kept ++ staging).Pairwise fun a b => a.key < b.key) {last : Message}
    (hlast : last ∈ pageOf chat none n) :
    Reaches chat horizon (kept ++ staging) last.id := by
  have hsome : ∃ first, (kept ++ staging).head? = some first := by
    obtain ⟨item, hitem, -⟩ := hstaged.covers last hlast
    cases hhead : (kept ++ staging).head? with
    | none =>
      rw [List.head?_eq_none_iff] at hhead
      exact absurd (mem_append_right kept hitem) (by rw [hhead]; exact not_mem_nil)
    | some first => exact ⟨first, rfl⟩
  obtain ⟨first, hfirst⟩ := hsome
  unfold Reaches
  rw [hfirst]
  intro m hm hbound hlt
  obtain ⟨item, hitem, htogether⟩ := hstaged.covers m (mem_pageOf hchat hm rfl hlast hbound)
  exact together_head horder hfirst (mem_append_right _ hitem) htogether hlt.le

theorem Reaches.append {dropped : List TbMessage}
    (h : Reaches chat horizon (kept ++ dropped) bound) (hne : kept ++ dropped ≠ [])
    {smallest : TbMessage} (hsmallest : smallest ∈ staging.head?)
    (hdropped : ∀ item ∈ dropped, smallest.key ≤ item.key) {horizon' : ℕ} :
    Reaches chat horizon' (kept ++ staging) bound := by
  unfold Reaches at h ⊢
  cases kept with
  | cons head rest => exact h
  | nil =>
    rw [nil_append] at h hne ⊢
    rw [hsmallest]
    cases dropped with
    | nil => exact absurd rfl hne
    | cons first rest =>
      intro m hm hbound hlt
      have hle := hdropped first mem_cons_self
      exact (h m hm hbound (hlt.trans_le hle)).cut ((min_le_left _ _).trans hlt.le)
        (hle.trans (le_max_right _ _))

def accepted (items staging : List TbMessage) : List TbMessage :=
  staging.filter fun item => item.key < (items.head?.map TbMessage.key).getD (2 ^ 63 - 1)

theorem together_accepted (hchat : Ordered chat) (hbounded : ∀ m ∈ chat, m.id < 2 ^ 63 - 1)
    (hstaged : Staged chat (pageOf chat (some bound) n) staging) {m : Message}
    (hm : m ∈ pageOf chat (some bound) n) (hlt : ∀ first ∈ items.head?, m.id < first.key) :
    (∃ item ∈ accepted items staging, Together chat m.id item.key) ∨
      ∃ first ∈ items.head?, Together chat m.id first.key := by
  obtain ⟨item, hitem, htogether⟩ := hstaged.covers m hm
  cases hhead : items.head? with
  | none =>
    refine Or.inl ⟨item, mem_filter.mpr ⟨hitem, ?_⟩, htogether⟩
    obtain ⟨x, hx, hid, -⟩ := hstaged.mem item hitem
    rw [hhead]
    simpa [← hid] using hbounded x ((stretch_pageOf hchat _ n).mem x hx)
  | some first =>
    by_cases hbefore : item.key < first.key
    · refine Or.inl ⟨item, mem_filter.mpr ⟨hitem, ?_⟩, htogether⟩
      rw [hhead]
      simpa using hbefore
    · refine Or.inr ⟨first, rfl, htogether.cut ?_ ?_⟩
      · exact (min_le_left _ _).trans (hlt first hhead).le
      · exact (not_lt.mp hbefore).trans (le_max_right _ _)

theorem accepted_lt {item first : TbMessage} (hitem : item ∈ accepted items staging)
    (hfirst : first ∈ items.head?) : item.key < first.key := by
  have h := (mem_filter.mp hitem).2
  rw [show items.head? = some first from hfirst] at h
  simpa using h

theorem mem_older (hchat : Ordered chat) {m y : Message} (hm : m ∈ chat) (hbound : m.id < bound)
    (hy : y ∈ pageOf chat (some bound) n) (hle : y.id ≤ m.id) :
    m ∈ pageOf chat (some bound) n :=
  mem_pageOf hchat hm (by simpa using hbound) hy hle

section

variable (hchat : Ordered chat) (hbounded : ∀ m ∈ chat, m.id < 2 ^ 63 - 1) (h : Gapless chat
  horizon items) (hreaches : Reaches chat horizon items bound) (hstaged : Staged chat (pageOf chat
  (some bound) n) staging)
include hchat hbounded h hreaches hstaged

theorem Gapless.prepend :
    Gapless chat horizon (accepted items staging ++ items) where
  order := by
    refine pairwise_append.mpr ⟨hstaged.order.filter _, h.order, ?_⟩
    intro item hitem old hold
    cases hhead : items.head? with
    | none =>
      rw [List.head?_eq_none_iff] at hhead
      exact absurd hold (by rw [hhead]; exact not_mem_nil)
    | some first => exact (accepted_lt hitem hhead).trans_le (head_le h.order hhead hold)
  mem := by
    intro item hitem
    rcases mem_append.mp hitem with hnew | hold
    · obtain ⟨x, hx, hid, halbum⟩ := hstaged.mem item (mem_of_mem_filter hnew)
      have hx' := (stretch_pageOf hchat _ n).mem x hx
      refine ⟨?_, x, hx', hid, halbum⟩
      cases hhead : items.head? with
      | none =>
        -- nothing is shown: the cursor is at the newest message
        unfold Reaches at hreaches
        rw [hhead] at hreaches
        have hlt : x.id < bound := by
          have h := (mem_filter.mp (mem_reverse.mp (mem_of_mem_take hx))).2
          simpa using h
        rw [← hid]
        exact not_lt.mp fun h => absurd ((hreaches x hx').mpr h) (not_le.mpr hlt)
      | some first =>
        exact (accepted_lt hnew hhead).le.trans (h.mem first (mem_of_mem_head? hhead)).1
    · exact h.mem item hold
  covers := by
    intro first hfirst m hm hge hle
    by_cases hshown : ∃ old ∈ items.head?, old.key ≤ m.id
    · obtain ⟨old, hold, hge'⟩ := hshown
      obtain ⟨item, hitem, htogether⟩ := h.covers old hold m hm hge' hle
      exact ⟨item, mem_append_right _ hitem, htogether⟩
    have hbefore : ∀ old ∈ items.head?, m.id < old.key :=
      fun old hold => not_le.mp fun hge' => hshown ⟨old, hold, hge'⟩
    have hold_mem : ∀ old ∈ items.head?, old ∈ accepted items staging ++ items :=
      fun old hold => mem_append_right _ (mem_of_mem_head? hold)
    by_cases hbound : bound ≤ m.id
    · unfold Reaches at hreaches
      cases hhead : items.head? with
      | none =>
        rw [hhead] at hreaches
        exact absurd hle (not_le.mpr ((hreaches m hm).mp hbound))
      | some old =>
        rw [hhead] at hreaches
        exact ⟨old, hold_mem old hhead, hreaches m hm hbound (hbefore old hhead)⟩
    · -- the first item is one of the page
      have hpage : m ∈ pageOf chat (some bound) n := by
        cases hnew : accepted items staging with
        | nil =>
          rw [hnew, nil_append] at hfirst
          exact absurd hge (not_le.mpr (hbefore first hfirst))
        | cons head rest =>
          rw [hnew] at hfirst
          obtain rfl : head = first := Option.some.inj hfirst
          have hhead : head ∈ accepted items staging := by
            rw [hnew]
            exact mem_cons_self
          obtain ⟨x, hx, hid, -⟩ := hstaged.mem head (mem_of_mem_filter hhead)
          exact mem_older hchat hm (not_le.mp hbound) hx (hid ▸ hge)
      rcases together_accepted hchat hbounded hstaged hpage hbefore with
        ⟨item, hitem, htogether⟩ | ⟨old, hold, htogether⟩
      · exact ⟨item, mem_append_left _ hitem, htogether⟩
      · exact ⟨old, hold_mem old hold, htogether⟩

theorem Reaches.prepend :
    Reaches chat horizon (accepted items staging ++ items)
      ((pageOf chat (some bound) n).getLast?.elim bound Message.id) := by
  have hgapless := h.prepend hchat hbounded hreaches hstaged
  cases hlast : (pageOf chat (some bound) n).getLast? with
  | none =>
    have hempty : accepted items staging = [] := by
      refine eq_nil_iff_forall_not_mem.mpr fun item hitem => ?_
      obtain ⟨x, hx, -⟩ := hstaged.mem item (mem_of_mem_filter hitem)
      rw [List.getLast?_eq_none_iff.mp hlast] at hx
      exact absurd hx not_mem_nil
    rw [hempty]
    exact hreaches
  | some last =>
    have hmem : last ∈ pageOf chat (some bound) n := mem_of_getLast? hlast
    unfold Reaches
    cases hhead : (accepted items staging ++ items).head? with
    | none =>
      rw [List.head?_eq_none_iff, append_eq_nil_iff] at hhead
      have hnone : ∀ first ∈ items.head?, last.id < first.key := by simp [hhead.2]
      rcases together_accepted hchat hbounded hstaged hmem hnone with
        ⟨item, hitem, -⟩ | ⟨first, hfirst, -⟩
      · rw [hhead.1] at hitem
        exact absurd hitem not_mem_nil
      · rw [hhead.2] at hfirst
        exact absurd hfirst (by simp)
    | some first =>
      intro m hm hge hlt
      have hold : ∀ old ∈ items.head?, first.key ≤ old.key :=
        fun old hold => head_le hgapless.order hhead
          (mem_append_right _ (mem_of_mem_head? hold))
      by_cases hbefore : m.id < bound
      · have hpage := mem_older hchat hm hbefore hmem hge
        rcases together_accepted hchat hbounded hstaged hpage
            (fun old hmem' => hlt.trans_le (hold old hmem')) with
          ⟨item, hitem, htogether⟩ | ⟨old, hmem', htogether⟩
        · exact together_head hgapless.order hhead (mem_append_left _ hitem) htogether hlt.le
        · exact together_head hgapless.order hhead
            (mem_append_right _ (mem_of_mem_head? hmem')) htogether hlt.le
      · -- nothing is taken: what is taken is before the cursor
        cases hnew : accepted items staging with
        | nil =>
          rw [hnew, nil_append] at hhead
          unfold Reaches at hreaches
          rw [hhead] at hreaches
          exact hreaches m hm (not_lt.mp hbefore) hlt
        | cons head rest =>
          rw [hnew] at hhead
          obtain rfl : head = first := Option.some.inj hhead
          have hhead' : head ∈ accepted items staging := by
            rw [hnew]
            exact mem_cons_self
          obtain ⟨x, hx, hid, -⟩ := hstaged.mem head (mem_of_mem_filter hhead')
          have hlt' : x.id < bound := by
            have h := (mem_filter.mp (mem_reverse.mp (mem_of_mem_take hx))).2
            simpa using h
          rw [← hid] at hlt
          exact absurd (hlt.trans hlt') hbefore

end

end Pages

end Link
