import TeleBezel.Lib.Parts

/-!
# Cutting UTF-8

A text of UTF-8 can be cut before every byte that begins a character, and nowhere else: no encoding of a
character begins that of another, and the bytes of a character after its first all continue it.
-/

open List

namespace Parts

/-- No character is cut. -/
def CutAt (text : List UInt8) (n : ℕ) : Prop := ∀ byte, text[n]? = some byte → ¬ Continues byte

instance (text : List UInt8) (n : ℕ) : Decidable (CutAt text n) :=
  match h : text[n]? with
  | none => isTrue fun byte hbyte => by rw [h] at hbyte; cases hbyte
  | some byte =>
    if hbyte : Continues byte then isFalse fun hcut => hcut byte h hbyte
    else isTrue fun other hother => by rw [h, Option.some.injEq] at hother; exact hother ▸ hbyte

theorem characters_nil : Characters [] := ⟨[], rfl⟩

theorem Characters.append {front text : List UInt8} (hfront : Characters front)
    (htext : Characters text) : Characters (front ++ text) := by
  obtain ⟨chars, rfl⟩ := hfront
  obtain ⟨more, rfl⟩ := htext
  exact ⟨chars ++ more, flatMap_append.symm⟩

theorem continues_of_pos {char : Char} {n : ℕ} {byte : UInt8} (hn : 0 < n)
    (hbyte : (String.utf8EncodeChar char)[n]? = some byte) : Continues byte := by
  have hlow : ∀ n : ℕ, Continues (UInt8.ofNat (n % 64 + 128)) := by
    have hall : ∀ n < 64, Continues (UInt8.ofNat (n + 128)) := by decide +kernel
    exact fun n => hall _ (Nat.mod_lt n (by decide))
  obtain ⟨n, rfl⟩ := Nat.exists_eq_add_of_lt hn
  rw [Nat.zero_add] at hbyte
  unfold String.utf8EncodeChar at hbyte
  dsimp only at hbyte
  split_ifs at hbyte
  all_goals
    rw [List.getElem?_cons_succ] at hbyte
    have hmem := mem_of_getElem? hbyte
    simp only [mem_cons, not_mem_nil, or_false] at hmem
  · rw [hmem]
    exact hlow _
  · rcases hmem with rfl | rfl <;> exact hlow _
  · rcases hmem with rfl | rfl | rfl <;> exact hlow _

theorem encode_append_inj {char other : Char} {text more : List UInt8}
    (h : String.utf8EncodeChar char ++ text = String.utf8EncodeChar other ++ more) :
    char = other ∧ text = more := by
  have hdecode : ∀ (char : Char) (text : List UInt8),
      (String.utf8EncodeChar char ++ text).toByteArray.utf8DecodeChar? 0 = some char := by
    intro char text
    rw [toByteArray_append]
    exact ByteArray.utf8DecodeChar?_utf8EncodeChar_append
  have hchar := hdecode char text
  rw [h, hdecode other more, Option.some.injEq] at hchar
  subst hchar
  exact ⟨rfl, append_cancel_left h⟩

theorem characters_encode_append_iff (char : Char) (text : List UInt8) :
    Characters (String.utf8EncodeChar char ++ text) ↔ Characters text := by
  constructor
  · rintro ⟨chars, hchars⟩
    cases chars with
    | nil => exact absurd (append_eq_nil_iff.mp hchars).1 String.utf8EncodeChar_ne_nil
    | cons other chars =>
      rw [flatMap_cons] at hchars
      exact ⟨chars, (encode_append_inj hchars).2⟩
  · exact Characters.append ⟨[char], by simp⟩

theorem Characters.append_iff {front : List UInt8} (h : Characters front) (text : List UInt8) :
    Characters (front ++ text) ↔ Characters text := by
  obtain ⟨chars, rfl⟩ := h
  induction chars with
  | nil => rfl
  | cons char chars ih => rw [flatMap_cons, append_assoc, characters_encode_append_iff, ih]

theorem Characters.take_iff {text : List UInt8} (h : Characters text) (n : ℕ) :
    Characters (text.take n) ↔ CutAt text n := by
  obtain ⟨chars, rfl⟩ := h
  induction chars generalizing n with
  | nil => exact iff_of_true (by simpa using characters_nil) (by simp [CutAt])
  | cons char chars ih =>
    rw [flatMap_cons]
    by_cases hwhole : (String.utf8EncodeChar char).length ≤ n
    · obtain ⟨n, rfl⟩ := Nat.exists_eq_add_of_le hwhole
      rw [take_length_add_append, characters_encode_append_iff, ih, CutAt, CutAt,
        List.getElem?_append_right (Nat.le_add_right _ _), Nat.add_sub_cancel_left]
    · rw [not_le] at hwhole
      rw [take_append_of_le_length hwhole.le]
      cases n with
      | zero =>
        refine iff_of_true characters_nil fun byte hbyte => ?_
        refine Characters.head ⟨char :: chars, flatMap_cons.symm⟩ ?_
        rwa [List.head?_eq_getElem?]
      | succ n =>
        -- a cut within the character: the bytes before it are no character, and the next continues it
        refine iff_of_false (fun hcut => ?_) fun hcut => ?_
        · obtain ⟨others, hothers⟩ := hcut
          cases others with
          | nil =>
            have hlength := congrArg List.length hothers
            rw [length_take] at hlength
            simp only [flatMap_nil, length_nil] at hlength
            omega
          | cons other others =>
            have hsplit := take_append_drop (n + 1) (String.utf8EncodeChar char)
            rw [hothers, flatMap_cons, append_assoc,
              ← append_nil (String.utf8EncodeChar char)] at hsplit
            have hnone := (append_eq_nil_iff.mp (encode_append_inj hsplit).2).2
            rw [append_nil, drop_eq_nil_iff] at hnone
            omega
        · have hbyte := List.getElem?_eq_getElem hwhole
          refine hcut _ ?_ (continues_of_pos (Nat.succ_pos n) hbyte)
          rw [List.getElem?_append_left hwhole, hbyte]

theorem Characters.of_append {front text : List UInt8} (h : Characters (front ++ text))
    (htext : ∀ byte, text.head? = some byte → ¬ Continues byte) : Characters front := by
  have htake := (h.take_iff front.length).mpr fun byte hbyte => htext byte (by
    rwa [List.getElem?_append_right (Nat.le_refl _), Nat.sub_self, ← List.head?_eq_getElem?] at hbyte)
  rwa [take_left] at htake

section Cut

variable {front detail rest : List UInt8}

/-- **Where texts may be cut** that stand one after another, the middle one of them cut before. -/
theorem characters_cut_iff (hfront : Characters front) (hdetail : Characters detail)
    (hrest : Characters rest) (a n : ℕ) :
    Characters ((front ++ detail.take a ++ rest).take n) ↔
      if n ≤ (front ++ detail.take a).length then CutAt (front ++ detail) n
      else CutAt detail a ∧ CutAt rest (n - (front ++ detail.take a).length) := by
  split_ifs with hshort
  · rw [take_append_of_le_length hshort, ← (hfront.append hdetail).take_iff n]
    have hstart : front ++ detail.take a <+: front ++ detail :=
      (prefix_append_right_inj front).mpr (List.take_prefix a detail)
    obtain ⟨more, hmore⟩ := hstart
    rw [← hmore, take_append_of_le_length hshort]
  · rw [not_le] at hshort
    obtain ⟨m, rfl⟩ := Nat.exists_eq_add_of_le hshort.le
    rw [take_length_add_append, Nat.add_sub_cancel_left, ← hdetail.take_iff a, ← hrest.take_iff m]
    constructor
    · intro h
      have hbefore := h.of_append fun byte hbyte => hrest.head <| by
        cases rest with
        | nil => simp at hbyte
        | cons first rest =>
          cases m with
          | zero => simp at hbyte
          | succ m => exact hbyte
      exact ⟨(hfront.append_iff _).mp hbefore, (hbefore.append_iff _).mp h⟩
    · exact fun ⟨hcut, htake⟩ => (hfront.append hcut).append htake

end Cut

end Parts
