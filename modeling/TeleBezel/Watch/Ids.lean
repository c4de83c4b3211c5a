import TeleBezel.Lib.Decimal
import TeleBezel.Watch.HistoryBudget

/-!
# Ids on the watch

`tb_copy_id` takes the decimal forms of the 64-bit integers that are not zero, and `tb_parse_id` reads
those integers back; the check before each digit keeps `result` within the range of `int64_t`.
-/

open List

namespace Watch

open Decimal

def idOf (n : ℤ) : CString := if n < 0 then 0x2D :: digitsOf n.natAbs else digitsOf n.natAbs

/-- The numbers that are ids. -/
structure IsId (allowNegative : Bool) (n : ℤ) : Prop where
  ne_zero : n ≠ 0
  low : -2 ^ 63 ≤ n
  high : n < 2 ^ 63
  positive : allowNegative = false → 0 < n

/-- The values that `result` takes in the loop of `tb_parse_id`. -/
def results : List UInt8 → ℕ → List ℕ
  | [], _ => []
  | c :: rest, result =>
    if c < 0x30 ∨ 0x39 < c then []
    else
      let digit := c.toNat - 0x30
      if 922337203685477580 < result ∨ (result = 922337203685477580 ∧ 7 < digit) then []
      else (result * 10 + digit) :: results rest (result * 10 + digit)

def parsedResults (value : CString) : List ℕ :=
  results (if value.head? = some 0x2D then value.tail else value) 0

theorem digit_iff {c : UInt8} : ¬(c < 0x30 ∨ 0x39 < c) ↔ IsDigit c := by
  rw [not_or, UInt8.not_lt, UInt8.not_lt, IsDigit]

theorem digit_le {c : UInt8} (h : IsDigit c) : c.toNat - 0x30 ≤ 9 := by
  have hhigh := UInt8.le_iff_toNat_le.mp h.2
  change c.toNat ≤ 57 at hhigh
  omega

theorem results_lt (digits : List UInt8) (result : ℕ) : ∀ value ∈ results digits result, value < 2 ^ 63 := by
  induction digits generalizing result with
  | nil => exact fun _ hvalue => absurd hvalue not_mem_nil
  | cons c digits ih =>
    intro value hvalue
    rw [results] at hvalue
    dsimp only at hvalue
    split_ifs at hvalue with hdigit hfull
    · exact absurd hvalue not_mem_nil
    · exact absurd hvalue not_mem_nil
    · obtain rfl | hvalue := mem_cons.mp hvalue
      · have hlast := digit_le (digit_iff.mp hdigit)
        omega
      · exact ih _ value hvalue

variable {digits : List UInt8}

theorem parseDigits_iff {negative : Bool} {result : ℕ} (h : result < 2 ^ 63) {n : ℤ} :
    parseDigits negative digits result = some n ↔ (∀ c ∈ digits, IsDigit c) ∧
      spell digits result < 2 ^ 63 + negative.toNat ∧
      n = if negative then -(spell digits result : ℤ) else spell digits result := by
  induction digits generalizing result with
  | nil =>
    rw [parseDigits, Option.some_inj, eq_comm]
    exact ⟨fun hn => ⟨forall_mem_nil _, Nat.lt_add_right _ h, hn⟩, fun hn => hn.2.2⟩
  | cons c digits ih =>
    rw [parseDigits, forall_mem_cons, spell_cons]
    by_cases hdigit : c < 0x30 ∨ 0x39 < c
    · rw [if_pos hdigit]
      exact iff_of_false (Option.some_ne_none n).symm fun hn => digit_iff.mpr hn.1.1 hdigit
    rw [if_neg hdigit]
    have hc := digit_iff.mp hdigit
    have hlast := digit_le hc
    dsimp only
    generalize c.toNat - 0x30 = digit at hlast
    have hgrows := le_spell digits (result * 10 + digit)
    by_cases hfull : 922337203685477580 < result ∨ (result = 922337203685477580 ∧ 7 < digit)
    · rw [if_pos hfull]
      by_cases hleast : negative = true ∧ result = 922337203685477580 ∧ digit = 8 ∧ digits = []
      · -- the least value, with its last digit
        rw [if_pos hleast]
        obtain ⟨rfl, rfl, rfl, rfl⟩ := hleast
        rw [Option.some_inj, eq_comm]
        exact ⟨fun hn => ⟨⟨hc, forall_mem_nil _⟩, by decide, hn⟩, fun hn => hn.2.2⟩
      · rw [if_neg hleast]
        refine iff_of_false (Option.some_ne_none n).symm fun hn => hleast ?_
        have hrange := hn.2.1
        have hbool : negative.toNat ≤ 1 := Bool.toNat_le negative
        have hnegative : negative = true := by
          cases negative with
          | true => rfl
          | false => simp only [Bool.toNat_false] at hrange; omega
        refine ⟨hnegative, by omega, by omega, ?_⟩
        cases digits with
        | nil => rfl
        | cons d digits =>
          have hmore := le_spell digits ((result * 10 + digit) * 10 + (d.toNat - 0x30))
          rw [spell_cons] at hrange
          omega
    · rw [if_neg hfull, ih (by omega), and_iff_right hc]

theorem ne_minus {c : UInt8} (h : IsDigit c) : c ≠ 0x2D := by
  rintro rfl
  exact absurd h.1 (by decide)

theorem tbParseId_plain (h : Plain digits) :
    tbParseId digits = parseDigits false digits 0 ∧
      tbParseId (0x2D :: digits) = parseDigits true digits 0 := by
  constructor
  · obtain ⟨c, rest, rfl⟩ := exists_cons_of_ne_nil h.ne_nil
    have hc := ne_minus (h.all c mem_cons_self)
    unfold tbParseId
    split
    · rename_i hnil; cases hnil
    · rename_i hminus; exact absurd (List.cons.inj hminus).1 hc
    · rfl
  · rw [tbParseId, if_neg h.ne_nil]

theorem tbParseId_idOf {n : ℤ} (hne : n ≠ 0) (hlow : -2 ^ 63 ≤ n) (hhigh : n < 2 ^ 63) :
    tbParseId (idOf n) = some n := by
  obtain ⟨hplain, hspell⟩ := plain_digitsOf (Int.natAbs_pos.mpr hne)
  obtain ⟨hplus, hminus⟩ := tbParseId_plain hplain
  unfold idOf
  split_ifs with hsign
  · rw [hminus, parseDigits_iff (by decide), hspell]
    exact ⟨hplain.all, by rw [Bool.toNat_true]; omega, by rw [if_pos rfl]; omega⟩
  · rw [hplus, parseDigits_iff (by decide), hspell]
    exact ⟨hplain.all, by rw [Bool.toNat_false]; omega, by rw [if_neg (by decide)]; omega⟩

theorem length_digitsOf_le {n : ℕ} (h : n ≤ 2 ^ 63) : (digitsOf n).length ≤ 19 := by
  rw [digitsOf, length_map, Nat.length_toDigits_le_iff (by decide) (by decide)]
  exact Nat.lt_of_le_of_lt h (by decide)

theorem plain_iff (hne : digits ≠ []) :
    Plain digits ↔ ¬ digits.getD 0 0 = 0x30 ∧ ¬ digits.any (fun c => c < 0x30 || 0x39 < c) = true := by
  obtain ⟨c, rest, rfl⟩ := exists_cons_of_ne_nil hne
  have hall : (∀ d ∈ c :: rest, IsDigit d) ↔ ¬ (c :: rest).any (fun c => c < 0x30 || 0x39 < c) = true := by
    simp [IsDigit, -any_cons]
  rw [← hall, getD_cons_zero]
  exact ⟨fun h => ⟨fun hzero => h.head (congrArg some hzero), h.all⟩,
    fun h => ⟨hne, h.2, fun hhead => h.1 (Option.some.inj hhead)⟩⟩

theorem tbCopyId_iff {out : CString} {capacity : ℕ} {value : List UInt8} {allowNegative : Bool} :
    (tbCopyId out capacity value allowNegative).1 = true ↔ value.length < capacity ∧
      tbParseId value ≠ none ∧
        ∃ digits, Plain digits ∧ (value = digits ∨ allowNegative = true ∧ value = 0x2D :: digits) := by
  have hsigned : ∀ {rest}, ¬ Plain (0x2D :: rest) := fun h => ne_minus (h.all _ mem_cons_self) rfl
  unfold tbCopyId
  cases value with
  | nil =>
    refine iff_of_false (by simp) fun ⟨_, _, digits, hplain, hvalue⟩ => ?_
    obtain rfl | ⟨-, hvalue⟩ := hvalue
    · exact hplain.ne_nil rfl
    · cases hvalue
  | cons c rest =>
    by_cases hc : c = 0x2D
    · subst hc
      have hdigits : (∃ digits, Plain digits ∧ (0x2D :: rest = digits ∨
          allowNegative = true ∧ 0x2D :: rest = 0x2D :: digits)) ↔ allowNegative = true ∧ Plain rest := by
        constructor
        · rintro ⟨digits, hplain, rfl | ⟨hallow, heq⟩⟩
          · exact absurd hplain hsigned
          · exact ⟨hallow, (List.cons.inj heq).2 ▸ hplain⟩
        · exact fun h => ⟨rest, h.2, Or.inr ⟨h.1, rfl⟩⟩
      rw [hdigits]
      cases rest with
      | nil => exact iff_of_false (by simp) fun h => h.2.2.2.ne_nil rfl
      | cons d rest =>
        rw [plain_iff (cons_ne_nil d rest)]
        simp only [getD_cons_zero, if_true, drop_one, tail_cons, ← Nat.not_le]
        cases allowNegative
        · split_ifs <;> simp_all
        · split_ifs <;> simp_all
    · have hdigits : (∃ digits, Plain digits ∧ (c :: rest = digits ∨
          allowNegative = true ∧ c :: rest = 0x2D :: digits)) ↔ Plain (c :: rest) := by
        constructor
        · rintro ⟨digits, hplain, rfl | ⟨-, heq⟩⟩
          · exact hplain
          · exact absurd (List.cons.inj heq).1 hc
        · exact fun h => ⟨_, h, Or.inl rfl⟩
      rw [hdigits, plain_iff (cons_ne_nil c rest)]
      simp only [getD_cons_zero, if_neg hc, ← Nat.not_le]
      split_ifs <;> simp_all

theorem taken_iff {capacity : ℕ} (hcapacity : 21 ≤ capacity) {out : CString} {value : List UInt8}
    {allowNegative : Bool} : (tbCopyId out capacity value allowNegative).1 = true ↔
      ∃ n, IsId allowNegative n ∧ value = idOf n := by
  rw [tbCopyId_iff]
  constructor
  · rintro ⟨-, hparsed, digits, hplain, hvalue⟩
    obtain ⟨hpos, heq⟩ := hplain.eq
    obtain ⟨hplus, hminus⟩ := tbParseId_plain hplain
    obtain ⟨k, hk⟩ := Option.ne_none_iff_exists'.mp hparsed
    obtain rfl | ⟨rfl, rfl⟩ := hvalue
    · rw [hplus, parseDigits_iff (by decide), Bool.toNat_false] at hk
      refine ⟨spell value 0, ⟨by omega, by omega, by omega, fun _ => by omega⟩, ?_⟩
      rw [idOf, if_neg (by omega), Int.natAbs_natCast]
      exact heq
    · rw [hminus, parseDigits_iff (by decide), Bool.toNat_true] at hk
      refine ⟨-spell digits 0, ⟨by omega, by omega, by omega, nofun⟩, ?_⟩
      rw [idOf, if_pos (by omega), Int.natAbs_neg, Int.natAbs_natCast, ← heq]
  · rintro ⟨n, h, rfl⟩
    have hlow := h.low
    have hhigh := h.high
    have hlength := length_digitsOf_le (by omega : n.natAbs ≤ 2 ^ 63)
    refine ⟨?_, by rw [tbParseId_idOf h.ne_zero h.low h.high]; nofun, digitsOf n.natAbs,
      (plain_digitsOf (Int.natAbs_pos.mpr h.ne_zero)).1, ?_⟩
    · unfold idOf
      split_ifs
      · rw [length_cons]
        omega
      · omega
    · unfold idOf
      split_ifs with hsign
      · refine Or.inr ⟨?_, rfl⟩
        cases allowNegative with
        | true => rfl
        | false => exact absurd (h.positive rfl) (by omega)
      · exact Or.inl rfl

/-- **Ids are exact.** The decimal forms of the 64-bit integers but zero are taken, and read back as they
are with no value out of the range; so that ids are equal as strings just when they are as numbers, and the
keys of the history are the numbers of its ids. -/
theorem ids_exact {capacity : ℕ} (hcapacity : 21 ≤ capacity) (out : CString) (value : List UInt8)
    (allowNegative : Bool) :
    ((tbCopyId out capacity value allowNegative).1 = true ↔
      ∃ n, IsId allowNegative n ∧ value = idOf n) ∧
    (∀ n, IsId allowNegative n → value = idOf n →
      (tbCopyId out capacity value allowNegative).2 = value ∧ tbParseId value = some n) ∧
    (∀ result ∈ parsedResults value, result < 2 ^ 63) ∧
    (∀ n n' key key', IsId true n → IsId true n' → tbParseId (idOf n) = some key →
      tbParseId (idOf n') = some key' →
        (idOf n = idOf n' ↔ key = key') ∧ (key < key' ↔ n < n')) ∧
    ∀ (config : HistoryView.TbHistoryConfig) (messages messages' : HistoryView.TbMessages) malloc record,
      messages.stage config malloc record = some messages' → ∀ item ∈ messages'.staging,
        item ∈ messages.staging ∨ IsId false item.key ∧ item.id = idOf item.key := by
  have hread : ∀ {n}, IsId true n → tbParseId (idOf n) = some n := fun h =>
    tbParseId_idOf h.ne_zero h.low h.high
  refine ⟨taken_iff hcapacity, fun n h hvalue => ⟨?_, ?_⟩, results_lt _ _, ?_, ?_⟩
  · exact HistoryView.tbCopyId_value (Prod.ext ((taken_iff hcapacity).mpr ⟨n, h, hvalue⟩) rfl)
  · rw [hvalue, tbParseId_idOf h.ne_zero h.low h.high]
  · intro n n' key key' h h' hkey hkey'
    obtain rfl : n = key := Option.some.inj ((hread h).symm.trans hkey)
    obtain rfl : n' = key' := Option.some.inj ((hread h').symm.trans hkey')
    refine ⟨⟨fun heq => ?_, congrArg idOf⟩, Iff.rfl⟩
    rw [heq, hread h'] at hkey
    exact (Option.some.inj hkey).symm
  · intro config messages messages' malloc record hstage item hitem
    obtain ⟨-, rfl⟩ | ⟨-, id, key, hid, hkey, rfl | rfl⟩ := HistoryView.TbMessages.stage_cases hstage
    · exact Or.inl hitem
    · exact Or.inl hitem
    · obtain hitem | hitem := List.mem_append.mp hitem
      · exact Or.inl hitem
      · obtain rfl := List.mem_singleton.mp hitem
        obtain ⟨n, h, hn⟩ := (taken_iff (Nat.le_refl 21)).mp (congrArg Prod.fst hid)
        obtain rfl := HistoryView.tbCopyId_value hid
        rw [hn, tbParseId_idOf h.ne_zero h.low h.high] at hkey
        obtain rfl := Option.some.inj hkey
        exact Or.inr ⟨h, hn⟩

/-- The least id. -/
theorem least_exact : (tbCopyId [] 21 (idOf (-2 ^ 63)) true).1 = true :=
  (ids_exact (Nat.le_refl 21) [] (idOf (-2 ^ 63)) true).1.mpr
    ⟨-2 ^ 63, ⟨by decide, by decide, by decide, nofun⟩, rfl⟩

end Watch
