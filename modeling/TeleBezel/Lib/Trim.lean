import Mathlib.Data.List.DropRight
import Mathlib.Tactic.Ring

/-!
# Trimming

A list without what stands at its ends of a kind: what is left has no element of the kind at its ends,
and is the list without a part before it and a part after it that are all of the kind.
-/

open List

namespace Trim

variable {α : Type*} {p q : α → Bool} {l : List α}

def trim (p : α → Bool) (l : List α) : List α := (l.dropWhile p).rdropWhile p

structure Trimmed (p : α → Bool) (l : List α) : Prop where
  head : ∀ c ∈ l.head?, ¬ p c = true
  last : ∀ c ∈ l.getLast?, ¬ p c = true

theorem trimmed_trim (p : α → Bool) (l : List α) : Trimmed p (trim p l) := by
  constructor
  · intro c hc
    obtain ⟨rest, hrest⟩ := List.rdropWhile_prefix p (l.dropWhile p)
    have hhead : (l.dropWhile p).head? = some c := by
      rw [← hrest, List.head?_append]
      exact congrArg (fun head => head.or rest.head?) hc
    have hnot := List.head?_dropWhile_not p l
    rw [hhead] at hnot
    exact Bool.not_eq_true _ ▸ hnot
  · intro c hc
    obtain ⟨hne, rfl⟩ := mem_getLast?_eq_getLast hc
    exact rdropWhile_last_not p (l.dropWhile p) hne

theorem Trimmed.trim_eq (h : Trimmed p l) : trim p l = l := by
  have hhead : l.dropWhile p = l := by
    cases l with
    | nil => rfl
    | cons c l => exact dropWhile_cons_of_neg (h.head c rfl)
  rw [trim, hhead, rdropWhile_eq_self_iff]
  exact fun hne => h.last _ (List.getLast?_eq_some_getLast hne)

theorem Trimmed.imp (h : Trimmed p l) (hqp : ∀ c ∈ l, q c = true → p c = true) : Trimmed q l := by
  exact ⟨fun c hc hq => h.head c hc (hqp c (mem_of_mem_head? hc) hq),
    fun c hc hq => h.last c hc (hqp c (mem_of_mem_getLast? hc) hq)⟩

theorem trim_split (p : α → Bool) (l : List α) : ∃ before after,
    (∀ c ∈ before, p c = true) ∧ (∀ c ∈ after, p c = true) ∧ l = before ++ trim p l ++ after := by
  refine ⟨l.takeWhile p, (l.dropWhile p).rtakeWhile p, fun c hc => mem_takeWhile_imp hc,
    fun c hc => mem_rtakeWhile_imp hc, ?_⟩
  rw [append_assoc, trim, rdropWhile_append_rtakeWhile, takeWhile_append_dropWhile]

section FlatMap

variable {β : Type*} {r : β → Bool} {f : α → List β}

theorem dropWhile_flatMap (hf : ∀ c, f c ≠ []) (hr : ∀ c, ∀ b ∈ f c, r b = p c) (l : List α) :
    (l.flatMap f).dropWhile r = (l.dropWhile p).flatMap f := by
  induction l with
  | nil => rfl
  | cons c l ih =>
    rw [flatMap_cons, dropWhile_cons]
    split_ifs with hp
    · rw [dropWhile_append_of_pos fun b hb => (hr c b hb).trans hp, ih]
    · obtain ⟨b, rest, hcons⟩ := exists_cons_of_ne_nil (hf c)
      have hb : ¬ r b = true := by
        rw [hr c b (by rw [hcons]; exact mem_cons_self)]
        exact hp
      rw [flatMap_cons, hcons, cons_append, dropWhile_cons_of_neg hb]

theorem rdropWhile_flatMap (hf : ∀ c, f c ≠ []) (hr : ∀ c, ∀ b ∈ f c, r b = p c) (l : List α) :
    (l.flatMap f).rdropWhile r = (l.rdropWhile p).flatMap f := by
  rw [List.rdropWhile, reverse_flatMap,
    dropWhile_flatMap (p := p) (fun c => by simpa using hf c) fun c b hb => hr c b (by simpa using hb),
    reverse_flatMap]
  simp [List.rdropWhile, Function.comp_def]

theorem trim_flatMap (hf : ∀ c, f c ≠ []) (hr : ∀ c, ∀ b ∈ f c, r b = p c) (l : List α) :
    trim r (l.flatMap f) = (trim p l).flatMap f := by
  rw [trim, dropWhile_flatMap hf hr, rdropWhile_flatMap hf hr, trim]

end FlatMap

end Trim
