import Mathlib.Algebra.BigOperators.Group.List.Basic
import Mathlib.Data.List.Sort
import Mathlib.Tactic.Ring

/-!
# Ordered maps with totals

A map is the list of its entries by increasing keys. A quantity of the values has a total over the
entries; it is what a program keeps as a running sum when it adds and takes away along with the entries.
-/

open List

theorem OrderedMap.sorted_nil (κ α : Type*) [LinearOrder κ] :
    ([] : List (κ × α)).Pairwise fun a b => a.1 < b.1 :=
  Pairwise.nil

structure OrderedMap (κ α : Type*) [LinearOrder κ] where
  entries : List (κ × α) := []
  sorted : entries.Pairwise (fun a b => a.1 < b.1) := by exact OrderedMap.sorted_nil _ _

namespace OrderedMap

variable {κ α : Type*} [LinearOrder κ] (m : OrderedMap κ α) (key : κ)

def find : Option α := (m.entries.find? fun entry => entry.1 = key).map Prod.snd

def erase (key : κ) : OrderedMap κ α where
  entries := m.entries.filter fun entry => entry.1 ≠ key
  sorted := m.sorted.filter _

variable (value : α)

def put (key : κ) (value : α) : OrderedMap κ α where
  entries := m.entries.filter (fun entry => entry.1 < key) ++
    (key, value) :: m.entries.filter fun entry => key < entry.1
  sorted := by
    rw [pairwise_append, pairwise_cons]
    refine ⟨m.sorted.filter _, ⟨?_, m.sorted.filter _⟩, ?_⟩
    · exact fun entry hentry => of_decide_eq_true (mem_filter.1 hentry).2
    · intro a ha b hb
      have hlow : a.1 < key := of_decide_eq_true (mem_filter.1 ha).2
      rcases mem_cons.1 hb with rfl | hb
      · exact hlow
      · exact hlow.trans (of_decide_eq_true (mem_filter.1 hb).2)

variable (kind : κ × α → Bool)

def filter (kind : κ × α → Bool) : OrderedMap κ α where
  entries := m.entries.filter kind
  sorted := m.sorted.filter _

def map {β : Type*} (f : α → β) : OrderedMap κ β where
  entries := m.entries.map fun entry => (entry.1, f entry.2)
  sorted := pairwise_map.mpr m.sorted

def victim (used : α → ℕ) : Option (κ × α) :=
  m.entries.foldl
    (fun best entry =>
      if kind entry && best.all (fun other => used entry.2 < used other.2) then some entry else best)
    none

variable (f : α → ℕ)

def total : ℕ := (m.entries.map fun entry => f entry.2).sum

def sum (f : κ × α → ℕ) : ℕ := (m.entries.map f).sum

def size : ℕ := m.entries.length

def count : ℕ := m.entries.countP kind

variable {m}

theorem find_eq_some_iff {key : κ} {value : α} :
    m.find key = some value ↔ (key, value) ∈ m.entries := by
  obtain ⟨entries, sorted⟩ := m
  simp only [find]
  induction entries with
  | nil => simp
  | cons entry entries ih =>
    rw [pairwise_cons] at sorted
    by_cases hkey : entry.1 = key
    · rw [List.find?_cons_of_pos (by simpa using hkey), Option.map_some, Option.some_inj,
        mem_cons]
      constructor
      · rintro rfl
        exact Or.inl (Prod.ext hkey.symm rfl)
      · rintro (heq | hmem)
        · rw [← heq]
        · exact absurd hkey (sorted.1 _ hmem).ne
    · rw [List.find?_cons_of_neg (by simpa using hkey), ih sorted.2, mem_cons]
      refine ⟨Or.inr, ?_⟩
      rintro (heq | hmem)
      · rw [← heq] at hkey
        exact absurd rfl hkey
      · exact hmem

theorem find_erase (other : κ) :
    (m.erase key).find other = if other = key then none else m.find other := by
  ext value
  rw [find_eq_some_iff, erase, mem_filter]
  split_ifs with heq
  · simp [heq]
  · simp [heq, find_eq_some_iff]

theorem mem_put {key : κ} {value : α} {entry : κ × α} :
    entry ∈ (m.put key value).entries ↔
      entry = (key, value) ∨ entry ∈ m.entries ∧ entry.1 ≠ key := by
  simp only [put, mem_append, mem_cons, mem_filter, decide_eq_true_eq]
  constructor
  · rintro (⟨hmem, hlt⟩ | rfl | ⟨hmem, hlt⟩)
    · exact Or.inr ⟨hmem, hlt.ne⟩
    · exact Or.inl rfl
    · exact Or.inr ⟨hmem, hlt.ne'⟩
  · rintro (rfl | ⟨hmem, hne⟩)
    · exact Or.inr (Or.inl rfl)
    · rcases lt_or_gt_of_ne hne with hlt | hgt
      · exact Or.inl ⟨hmem, hlt⟩
      · exact Or.inr (Or.inr ⟨hmem, hgt⟩)

theorem find_put (other : κ) (value : α) :
    (m.put key value).find other = if other = key then some value else m.find other := by
  ext value'
  rw [find_eq_some_iff, mem_put]
  split_ifs with heq
  · simp [heq, eq_comm]
  · simp [heq, find_eq_some_iff]

theorem find_filter :
    (m.filter kind).find key = (m.find key).filter fun value => kind (key, value) := by
  ext value
  rw [find_eq_some_iff, filter, mem_filter, Option.filter_eq_some_iff, find_eq_some_iff]

theorem find_map {β : Type*} (f : α → β) (key : κ) : (m.map f).find key = (m.find key).map f := by
  ext value
  rw [find_eq_some_iff, map, mem_map, Option.map_eq_some_iff]
  constructor
  · rintro ⟨⟨key', value'⟩, hmem, heq⟩
    obtain ⟨rfl, rfl⟩ := Prod.mk.inj heq
    exact ⟨value', find_eq_some_iff.mpr hmem, rfl⟩
  · rintro ⟨value', hfind, rfl⟩
    exact ⟨(key, value'), find_eq_some_iff.mp hfind, rfl⟩

theorem ext_find {n : OrderedMap κ α} (h : ∀ key, m.find key = n.find key) : m = n := by
  have hmem : ∀ entry, entry ∈ m.entries ↔ entry ∈ n.entries := by
    rintro ⟨key, value⟩
    rw [← find_eq_some_iff, ← find_eq_some_iff, h]
  have hnodup : ∀ m : OrderedMap κ α, m.entries.Nodup := fun m =>
    m.sorted.imp fun hlt heq => absurd (congrArg Prod.fst heq) hlt.ne
  have hperm : m.entries.Perm n.entries := (perm_ext_iff_of_nodup (hnodup m) (hnodup n)).2 hmem
  have heq : m.entries = n.entries := by
    refine hperm.eq_of_pairwise (fun a b _ _ hab hba => ?_) m.sorted n.sorted
    exact absurd (hab.trans hba) (lt_irrefl _)
  cases m
  cases n
  cases heq
  rfl

omit [LinearOrder κ] in
theorem sum_filter_add (entries : List (κ × α)) (kind : κ × α → Bool) (f : κ × α → ℕ) :
    ((entries.filter kind).map f).sum + ((entries.filter fun entry => !kind entry).map f).sum =
      (entries.map f).sum := by
  induction entries with
  | nil => rfl
  | cons entry entries ih =>
    cases hkind : kind entry with
    | true =>
      rw [filter_cons_of_pos hkind, filter_cons_of_neg (by simp [hkind])]
      simp only [map_cons, sum_cons]
      omega
    | false =>
      rw [filter_cons_of_neg (by simp [hkind]), filter_cons_of_pos (by simp [hkind])]
      simp only [map_cons, sum_cons]
      omega

theorem sum_erase (f : κ × α → ℕ) :
    (m.erase key).sum f + (m.find key).elim 0 (fun value => f (key, value)) = m.sum f := by
  have hsplit := sum_filter_add m.entries (fun entry => decide (entry.1 ≠ key)) f
  -- there is at most one entry with the key
  have hone : ((m.entries.filter fun entry => !decide (entry.1 ≠ key)).map f).sum =
      (m.find key).elim 0 fun value => f (key, value) := by
    obtain ⟨entries, sorted⟩ := m
    simp only [find]
    clear hsplit
    induction entries with
    | nil => rfl
    | cons entry entries ih =>
      rw [pairwise_cons] at sorted
      by_cases hkey : entry.1 = key
      · have hnone : entries.filter (fun entry => !decide (entry.1 ≠ key)) = [] := by
          rw [filter_eq_nil_iff]
          intro other hother
          have hlt := sorted.1 other hother
          rw [hkey] at hlt
          simp [hlt.ne']
        rw [filter_cons_of_pos (by simp [hkey]), hnone,
          List.find?_cons_of_pos (by simpa using hkey), ← hkey]
        simp
      · rw [filter_cons_of_neg (by simp [hkey]), List.find?_cons_of_neg (by simpa using hkey)]
        exact ih sorted.2
  rw [hone] at hsplit
  exact hsplit

theorem sum_put (f : κ × α → ℕ) :
    (m.put key value).sum f = (m.erase key).sum f + f (key, value) := by
  have hsplit := sum_filter_add (m.entries.filter fun entry => decide (entry.1 ≠ key))
    (fun entry => decide (entry.1 < key)) f
  have hlow : (m.entries.filter fun entry => decide (entry.1 ≠ key)).filter
      (fun entry => decide (entry.1 < key)) =
      m.entries.filter fun entry => decide (entry.1 < key) := by
    rw [filter_filter]
    refine filter_congr fun entry _ => ?_
    by_cases hlt : entry.1 < key
    · simp [hlt, hlt.ne]
    · simp [hlt]
  have hhigh : (m.entries.filter fun entry => decide (entry.1 ≠ key)).filter
      (fun entry => !decide (entry.1 < key)) =
      m.entries.filter fun entry => decide (key < entry.1) := by
    rw [filter_filter]
    refine filter_congr fun entry _ => ?_
    rcases lt_trichotomy entry.1 key with hlt | heq | hgt
    · simp [hlt, hlt.le]
    · simp [heq]
    · simp [hgt, hgt.le, hgt.ne']
  rw [hlow, hhigh] at hsplit
  simp only [sum, put, erase, map_append, map_cons, sum_append, sum_cons]
  omega

theorem sum_filter (f : κ × α → ℕ) :
    (m.filter kind).sum f + (m.filter fun entry => !kind entry).sum f = m.sum f :=
  sum_filter_add m.entries kind f

theorem total_erase :
    (m.erase key).total f + (m.find key).elim 0 f = m.total f :=
  sum_erase key fun entry => f entry.2

theorem total_put :
    (m.put key value).total f = (m.erase key).total f + f value :=
  sum_put key value fun entry => f entry.2

theorem total_put_add {key : κ} {old : α} (h : m.find key = some old) :
    (m.put key value).total f + f old = m.total f + f value := by
  have herase := total_erase (m := m) key f
  rw [h, Option.elim_some] at herase
  rw [total_put]
  omega

theorem le_total {key : κ} {value : α} (h : m.find key = some value) :
    f value ≤ m.total f := by
  have herase := total_erase (m := m) key f
  rw [h, Option.elim_some] at herase
  omega

theorem size_eq_sum : m.size = m.sum fun _ => 1 := by
  rw [size, sum]
  induction m.entries with
  | nil => rfl
  | cons entry entries ih => rw [length_cons, map_cons, sum_cons, ih, Nat.add_comm]

theorem size_erase {key : κ} {value : α} (h : m.find key = some value) :
    (m.erase key).size + 1 = m.size := by
  have herase := sum_erase (m := m) key fun _ => 1
  rw [h, Option.elim_some] at herase
  rw [size_eq_sum, size_eq_sum, herase]

theorem count_eq_sum :
    m.count kind = m.sum fun entry => if kind entry then 1 else 0 := by
  rw [count, sum]
  induction m.entries with
  | nil => rfl
  | cons entry entries ih => rw [countP_cons, map_cons, sum_cons, ih, Nat.add_comm]

theorem count_erase :
    (m.erase key).count kind + (m.find key).elim 0 (fun value => if kind (key, value) then 1 else 0) =
      m.count kind := by
  rw [count_eq_sum, count_eq_sum, sum_erase]

theorem count_put :
    (m.put key value).count kind = (m.erase key).count kind + if kind (key, value) then 1 else 0 := by
  rw [count_eq_sum, count_eq_sum, sum_put]

theorem count_filter (other : κ × α → Bool) :
    (m.filter other).count kind + (m.filter fun entry => !other entry).count kind = m.count kind := by
  rw [count_eq_sum, count_eq_sum, count_eq_sum, sum_filter]

theorem size_put {key : κ} (h : m.find key = none) :
    (m.put key value).size = m.size + 1 := by
  have herase := sum_erase (m := m) key fun _ => 1
  rw [h, Option.elim_none, add_zero] at herase
  rw [size_eq_sum, size_eq_sum, sum_put, herase]

end OrderedMap
