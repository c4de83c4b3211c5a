import TeleBezel.Lib.Block
import TeleBezel.Phone.Pages

/-!
# A page on the watch

A page is a stretch of the chat. The phone makes fewer records of it than it has messages, and the
watch sorts them: every message of the page is then in the block of an item, and the items are
messages of the page.
-/

open List

namespace Link

open Phone Watch Block

def Together (chat : List Message) (m k : ℕ) : Prop := InBlock Message.id album chat m k

def Ordered (chat : List Message) : Prop := chat.Pairwise fun a b => a.id < b.id

structure Stretch (chat page : List Message) : Prop where
  order : page.Pairwise fun a b => b.id < a.id
  mem : ∀ x ∈ page, x ∈ chat
  whole : ∀ x ∈ chat, ∀ y ∈ page, ∀ z ∈ page, y.id ≤ x.id → x.id ≤ z.id → x ∈ page

structure Staged (chat page : List Message) (staging : List TbMessage) : Prop where
  order : staging.Pairwise fun a b => a.key < b.key
  mem : ∀ item ∈ staging, ∃ x ∈ page, x.id = item.key ∧ album x = item.album
  covers : ∀ m ∈ page, ∃ item ∈ staging, Together chat m.id item.key

variable {chat page : List Message}

theorem mem_pageOf {cursor : Option ℕ} {n : ℕ} (hchat : Ordered chat) {x y : Message}
    (hx : x ∈ chat) (hcursor : cursor.all (fun bound => x.id < bound) = true)
    (hy : y ∈ pageOf chat cursor n) (hle : y.id ≤ x.id) : x ∈ pageOf chat cursor n := by
  have hall : x ∈ (chat.filter fun message =>
      cursor.all fun bound => message.id < bound).reverse :=
    mem_reverse.mpr (mem_filter.mpr ⟨hx, hcursor⟩)
  have horder : ((chat.filter fun message =>
      cursor.all fun bound => message.id < bound).reverse).Pairwise fun a b => b.id < a.id :=
    pairwise_reverse.mpr (hchat.filter _)
  rw [← take_append_drop n (List.reverse _), mem_append] at hall
  rw [← take_append_drop n (List.reverse _), pairwise_append] at horder
  rcases hall with htake | hdrop
  · exact htake
  · exact absurd (horder.2.2 y hy x hdrop) (not_lt.mpr hle)

theorem stretch_pageOf (hchat : Ordered chat) (cursor : Option ℕ) (n : ℕ) :
    Stretch chat (pageOf chat cursor n) where
  order := (pairwise_reverse.mpr (hchat.filter _)).sublist (take_sublist _ _)
  mem x hx := (mem_filter.mp (mem_reverse.mp (mem_of_mem_take hx))).1
  whole := by
    intro x hx y hy z hz hyx hxz
    refine mem_pageOf hchat hx ?_ hy hyx
    have hz' := (mem_filter.mp (mem_reverse.mp (mem_of_mem_take hz))).2
    cases cursor with
    | none => rfl
    | some bound =>
      simp only [Option.all_some, decide_eq_true_eq] at hz' ⊢
      exact hxz.trans_lt hz'

variable {members : List Message}

theorem standing_mem {last : Message} (hlast : last ∈ members) :
    standing members last ∈ members := by
  unfold standing
  cases hfind : members.find? fun member => member.text ≠ [] with
  | none => exact hlast
  | some member => exact mem_of_find?_eq_some hfind

theorem grouped_mem {entry : Grouped}
    (h : grouped members = some entry) : entry.message ∈ members := by
  obtain ⟨last, hlast, rfl⟩ := Option.map_eq_some_iff.mp h
  exact standing_mem (mem_of_getLast? hlast)

theorem album_of_group
    (hmembers : members.IsChain fun first next => sameAlbum first next = true) {x y : Message}
    (hx : x ∈ members) (hy : y ∈ members) : x = y ∨ album x ≠ 0 ∧ album x = album y := by
  let one : Message → Message → Prop := fun first next => album next ≠ 0 ∧ album first = album next
  have htrans : Trans one one one := ⟨fun h h' => ⟨h'.1, h.2.trans h'.2⟩⟩
  have hpair : members.Pairwise one := by
    refine isChain_iff_pairwise.mp (hmembers.imp fun first next h => ?_)
    simpa [sameAlbum, one] using h
  let alike : Message → Message → Prop := fun x y => x = y ∨ album x ≠ 0 ∧ album x = album y
  have hsymm : Std.Symm alike := by
    refine ⟨fun x y h => ?_⟩
    rcases h with rfl | ⟨hsome, hsame⟩
    · exact Or.inl rfl
    · exact Or.inr ⟨hsame ▸ hsome, hsame.symm⟩
  have hall : members.Pairwise alike := hpair.imp fun {x y} h => Or.inr ⟨h.2 ▸ h.1, h.2⟩
  exact List.Pairwise.forall_of_forall (R := alike) (fun _ _ => Or.inl rfl) hall hx hy

theorem mem_group_of_between {groups : List (List Message)}
    (horder : groups.flatten.Pairwise fun a b => b.id < a.id)
    (hmembers : members ∈ groups) {m s x : Message} (hm : m ∈ members) (hs : s ∈ members)
    (hx : x ∈ groups.flatten) (hmin : min m.id s.id ≤ x.id) (hmax : x.id ≤ max m.id s.id) :
    x ∈ members := by
  obtain ⟨other, hother, hx'⟩ := mem_flatten.mp hx
  let apart : List Message → List Message → Prop := fun l l' => l = l' ∨
    (∀ a ∈ l, ∀ b ∈ l', b.id < a.id) ∨ ∀ a ∈ l, ∀ b ∈ l', a.id < b.id
  have hsymm : Std.Symm apart := by
    refine ⟨fun l l' h => ?_⟩
    rcases h with rfl | hlt | hgt
    · exact Or.inl rfl
    · exact Or.inr (Or.inr fun a ha b hb => hlt b hb a ha)
    · exact Or.inr (Or.inl fun a ha b hb => hgt b hb a ha)
  have hall : groups.Pairwise apart :=
    (pairwise_flatten.mp horder).2.imp fun h => Or.inr (Or.inl h)
  rcases List.Pairwise.forall_of_forall (R := apart) (fun _ _ => Or.inl rfl) hall hmembers hother with
    rfl | hlt | hgt
  · exact hx'
  · have h₁ := hlt m hm x hx'
    have h₂ := hlt s hs x hx'
    exact absurd hmin (not_le.mpr (lt_min h₁ h₂))
  · have h₁ := hgt m hm x hx'
    have h₂ := hgt s hs x hx'
    exact absurd hmax (not_le.mpr (max_lt h₁ h₂))

theorem together_of_group (hpage : Stretch chat page)
    (hmembers : members ∈ page.splitBy sameAlbum) {m s : Message} (hm : m ∈ members)
    (hs : s ∈ members) : Together chat m.id s.id := by
  have hchain := isChain_of_mem_splitBy hmembers
  rcases album_of_group hchain hm hs with rfl | ⟨hsome, -⟩
  · exact InBlock.refl chat m.id
  have hflatten : (page.splitBy sameAlbum).flatten = page := flatten_splitBy _ _
  have hin : ∀ y ∈ members, y ∈ page := by
    intro y hy
    rw [← hflatten]
    exact mem_flatten.mpr ⟨members, hmembers, hy⟩
  refine Or.inr ⟨album m, hsome, fun x hx hmin hmax => ?_⟩
  have hxpage : x ∈ page := by
    rcases le_total m.id s.id with hle | hle
    · rw [min_eq_left hle] at hmin
      rw [max_eq_right hle] at hmax
      exact hpage.whole x hx m (hin m hm) s (hin s hs) hmin hmax
    · rw [min_eq_right hle] at hmin
      rw [max_eq_left hle] at hmax
      exact hpage.whole x hx s (hin s hs) m (hin m hm) hmin hmax
  have hxmembers : x ∈ members := by
    refine mem_group_of_between ?_ hmembers hm hs ?_ hmin hmax
    · rw [hflatten]
      exact hpage.order
    · rw [hflatten]
      exact hxpage
  rcases album_of_group hchain hxmembers hm with rfl | ⟨-, hsame⟩
  · rfl
  · exact hsame

theorem group_covers (hpage : Stretch chat page) {m : Message} (hm : m ∈ page) :
    ∃ entry ∈ group page, Together chat m.id entry.message.id := by
  have hflatten : (page.splitBy sameAlbum).flatten = page := flatten_splitBy _ _
  rw [← hflatten] at hm
  obtain ⟨members, hmembers, hm⟩ := mem_flatten.mp hm
  obtain ⟨entry, hentry⟩ : ∃ entry, grouped members = some entry := by
    rw [grouped, List.getLast?_eq_some_getLast (ne_nil_of_mem hm)]
    exact ⟨_, rfl⟩
  refine ⟨entry, mem_filterMap.mpr ⟨members, hmembers, hentry⟩, ?_⟩
  exact together_of_group hpage hmembers hm (grouped_mem hentry)

theorem group_mem {entry : Grouped} (h : entry ∈ group page) : entry.message ∈ page := by
  obtain ⟨members, hmembers, hentry⟩ := mem_filterMap.mp h
  have hflatten : (page.splitBy sameAlbum).flatten = page := flatten_splitBy _ _
  rw [← hflatten]
  exact mem_flatten.mpr ⟨members, hmembers, grouped_mem hentry⟩

theorem group_order (hpage : Stretch chat page) :
    (group page).Pairwise fun a b => b.message.id < a.message.id := by
  have hflatten : (page.splitBy sameAlbum).flatten = page := flatten_splitBy _ _
  have horder : (page.splitBy sameAlbum).flatten.Pairwise fun a b => b.id < a.id := by
    rw [hflatten]
    exact hpage.order
  unfold group
  rw [pairwise_filterMap]
  refine (pairwise_flatten.mp horder).2.imp fun {l l'} h a ha b hb => ?_
  exact h _ (grouped_mem ha) _ (grouped_mem hb)

theorem length_group_le (hpage : Stretch chat page) : (group page).length ≤ page.length := by
  have hnodup : ((group page).map Grouped.message).Nodup := by
    refine pairwise_map.mpr ((group_order hpage).imp fun {a b} h heq => ?_)
    exact absurd h (by rw [heq]; exact lt_irrefl _)
  have hsub : (group page).map Grouped.message ⊆ page := by
    intro x hx
    obtain ⟨entry, hentry, rfl⟩ := mem_map.mp hx
    exact group_mem hentry
  simpa using (subperm_of_subset hnodup hsub).length_le

theorem mediaFlags_album {message : Message} (h : album message ≠ 0) (more : ℕ) :
    (mediaFlags message ||| more) &&& tbMediaFlagAlbum ≠ 0 := by
  unfold album at h
  cases hmedia : message.media with
  | none =>
    rw [hmedia] at h
    exact absurd rfl h
  | some media =>
    rw [hmedia] at h
    intro hzero
    -- the bit of the flag
    have hbit := congrArg (fun flags => flags.testBit 3) hzero
    have hkey : albumKey media.albumId ≠ 0 := h
    have hflag : Nat.testBit 8 3 = true := by decide
    simp [mediaFlags, hmedia, hkey, hflag, Nat.testBit_or, Nat.testBit_and, tbMediaFlagAlbum] at hbit

theorem album_staged (entry : Grouped) :
    (staged (messageRecord entry)).album = album entry.message := by
  by_cases hsome : album entry.message = 0
  · simp [staged, messageRecord, hsome]
  · rw [staged, messageRecord]
    exact if_neg (mediaFlags_album hsome _)

theorem staged_stagingOf (config : TbHistoryConfig) (hpage : Stretch chat page)
    (hlimit : page.length ≤ config.pageLimit) :
    Staged chat page (stagingOf config ((group page).map messageRecord)) ∧
      (stagingOf config ((group page).map messageRecord)).length = (group page).length := by
  have htake : ((group page).map messageRecord).take config.pageLimit =
      (group page).map messageRecord := by
    refine take_of_length_le ?_
    rw [length_map]
    exact (length_group_le hpage).trans hlimit
  have hperm : (stagingOf config ((group page).map messageRecord)).Perm
      ((group page).map fun entry => staged (messageRecord entry)) := by
    rw [stagingOf, htake, map_map]
    exact perm_insertionSort _ _
  let before : TbMessage → TbMessage → Prop := fun a b => a.key ≤ b.key
  have htotal : Std.Total before := ⟨fun a b => le_total a.key b.key⟩
  have htrans : IsTrans TbMessage before := ⟨fun _ _ _ h h' => le_trans h h'⟩
  refine ⟨⟨?_, ?_, ?_⟩, ?_⟩
  · have hsorted : (stagingOf config ((group page).map messageRecord)).Pairwise before :=
      pairwise_insertionSort before _
    have hnodup : ((stagingOf config ((group page).map messageRecord)).map TbMessage.key).Nodup := by
      rw [(hperm.map TbMessage.key).nodup_iff, map_map]
      refine pairwise_map.mpr ((group_order hpage).imp fun {a b} h heq => ?_)
      exact absurd heq h.ne'
    refine (hsorted.and (pairwise_map.mp hnodup)).imp fun {a b} h => ?_
    exact lt_of_le_of_ne h.1 h.2
  · intro item hitem
    obtain ⟨entry, hentry, rfl⟩ := mem_map.mp (hperm.mem_iff.mp hitem)
    exact ⟨entry.message, group_mem hentry, rfl, (album_staged entry).symm⟩
  · intro m hm
    obtain ⟨entry, hentry, htogether⟩ := group_covers hpage hm
    exact ⟨_, hperm.mem_iff.mpr (mem_map.mpr ⟨entry, hentry, rfl⟩), htogether⟩
  · rw [hperm.length_eq, length_map]

end Link
