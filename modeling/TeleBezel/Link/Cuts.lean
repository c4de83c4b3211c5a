import TeleBezel.Api.DeliveredText
import TeleBezel.Lib.Utf8
import TeleBezel.Phone.TextLimit
import TeleBezel.Watch.TextParts

/-!
# Cutting texts on both sides

`splitUtf8` and `decodeUtf8` of the phone and `tb_utf8_fit` of the watch go back from a cut over the bytes
that continue a character: to the last place before it where the text may be cut, and not to its start when
the cut leaves room for the longest character.
-/

open List

namespace Link.Cuts

open Parts Phone Phone.Text Delivered

/-! ### Back to a character -/

theorem greatest_back {data : List UInt8} (h : Characters data) (size : ℕ) :
    IsGreatest {n | n ≤ size ∧ CutAt data n} (back data size) := by
  refine ⟨⟨back_le data size, fun byte hbyte => ?_⟩, fun n ⟨hn, hcut⟩ => ?_⟩
  · obtain hzero | hpos := Nat.eq_zero_or_pos (back data size)
    · rw [hzero, ← List.head?_eq_getElem?] at hbyte
      exact h.head hbyte
    · exact back_boundary hbyte hpos
  · induction size with
    | zero => exact hn
    | succ size ih =>
      rw [back]
      split
      · rename_i hback
        obtain rfl | hlt := Nat.eq_or_lt_of_le hn
        · -- the byte that continues a character is one of the text
          rw [getD_eq_getElem?_getD] at hback
          cases hbyte : data[size + 1]? with
          | none =>
            rw [hbyte] at hback
            exact absurd hback (by decide)
          | some byte =>
            rw [hbyte] at hback
            exact absurd hback (hcut byte hbyte)
        · exact ih ⟨Nat.le_of_lt_succ hlt, hcut⟩ (Nat.le_of_lt_succ hlt)
      · exact hn

theorem fit_greatest {data : List UInt8} (h : Characters data) {capacity : ℕ} (hcapacity : 1 ≤ capacity) :
    IsGreatest {n | n < capacity ∧ n ≤ data.length ∧ Characters (data.take n)}
      (Watch.tbUtf8Fit data capacity) := by
  rw [Watch.tbUtf8Fit_eq, Watch.cutTo]
  split_ifs with hfits
  · exact ⟨⟨by omega, Nat.le_refl _, by rwa [take_length]⟩, fun n hn => hn.2.1⟩
  · obtain ⟨⟨hle, hcut⟩, hgreatest⟩ := greatest_back h (capacity - 1)
    exact ⟨⟨by omega, by omega, (h.take_iff _).mpr hcut⟩,
      fun n hn => hgreatest ⟨Nat.le_sub_one_of_lt hn.1, (h.take_iff n).mp hn.2.2⟩⟩

/-! ### The parts -/

theorem partEnd_fits {size : ℕ} (hsize : 4 ≤ size) {bytes : List UInt8} (h : Characters bytes)
    (hne : bytes ≠ []) :
    0 < partEnd size bytes ∧ partEnd size bytes ≤ size ∧ CutAt bytes (partEnd size bytes) := by
  unfold partEnd
  split_ifs with hlong
  · obtain ⟨⟨hle, hcut⟩, hgreatest⟩ := greatest_back h size
    obtain ⟨chars, rfl⟩ := id h
    cases chars with
    | nil => exact absurd rfl hne
    | cons char chars =>
      -- the first character ends before the cut
      have hfirst : CutAt ((char :: chars).flatMap String.utf8EncodeChar) char.utf8Size := by
        rw [← h.take_iff, flatMap_cons, ← String.length_utf8EncodeChar, take_left]
        exact ⟨[char], by simp⟩
      have hback := hgreatest ⟨char.utf8Size_le_four.trans hsize, hfirst⟩
      have hpos := char.utf8Size_pos
      dsimp only
      rw [if_neg (by omega)]
      exact ⟨by omega, hle, hcut⟩
  · refine ⟨length_pos_of_ne_nil hne, Nat.le_of_not_lt hlong, fun byte hbyte => ?_⟩
    rw [List.getElem?_eq_none (Nat.le_refl _)] at hbyte
    cases hbyte

theorem splitUtf8_parts {size : ℕ} (hsize : 4 ≤ size) {bytes : List UInt8} (h : Characters bytes) :
    ∀ part ∈ splitUtf8 bytes size, part ≠ [] ∧ Characters part ∧ part.length ≤ size := by
  rw [splitUtf8]
  generalize bytes.length = fuel
  induction fuel generalizing bytes with
  | zero => exact fun _ hpart => absurd hpart not_mem_nil
  | succ fuel ih =>
    cases hbytes : bytes with
    | nil => exact fun _ hpart => absurd hpart not_mem_nil
    | cons byte rest =>
      rw [← hbytes]
      have hne : bytes ≠ [] := hbytes ▸ cons_ne_nil byte rest
      obtain ⟨hpos, hle, hcut⟩ := partEnd_fits hsize h hne
      have hfront := (h.take_iff _).mpr hcut
      have hrest : Characters (bytes.drop (partEnd size bytes)) := by
        rw [← hfront.append_iff, take_append_drop]
        exact h
      have hsplit : splitLoop size (fuel + 1) bytes =
          bytes.take (partEnd size bytes) :: splitLoop size fuel (bytes.drop (partEnd size bytes)) := by
        rw [hbytes]
        rfl
      rw [hsplit, forall_mem_cons]
      refine ⟨⟨?_, hfront, ?_⟩, ih hrest⟩
      · rw [Ne, take_eq_nil_iff, not_or]
        exact ⟨by omega, hne⟩
      · exact (length_take_le _ _).trans hle

/-! ### Reading the characters -/

def extraOf (first : UInt8) : ℕ :=
  if 0xF0 ≤ first then 3 else if 0xE0 ≤ first then 2 else if 0xC0 ≤ first then 1 else 0

def leadBits (extra first : ℕ) : ℕ :=
  if extra = 3 then first &&& 0x07
  else if extra = 2 then first &&& 0x0F
  else if extra = 1 then first &&& 0x1F
  else first

/-- The inner loop of `decodeUtf8`: six bits of each byte that follows, none of one that is missing. -/
def codePoint : ℕ → ℕ → List UInt8 → ℕ
  | 0, value, _ => value
  | extra + 1, value, [] => codePoint extra (value <<< 6) []
  | extra + 1, value, byte :: rest => codePoint extra ((value <<< 6) ||| (byte.toNat &&& 0x3F)) rest

/-- `String.fromCharCode`, of a code point. -/
def charCodes (value : ℕ) : JsString :=
  if 0xFFFF < value then [0xD800 + ((value - 0x10000) >>> 10), 0xDC00 + ((value - 0x10000) &&& 0x3FF)]
  else [value]

/-- The loop of `decodeUtf8`, which takes bytes, so that their number is fuel enough. -/
def decodeLoop : ℕ → List UInt8 → JsString
  | 0, _ => []
  | _, [] => []
  | fuel + 1, first :: rest =>
    charCodes (codePoint (extraOf first) (leadBits (extraOf first) first.toNat) rest) ++
      decodeLoop fuel (rest.drop (extraOf first))

def decodeUtf8 (bytes : List UInt8) : JsString := decodeLoop bytes.length bytes

theorem charCodes_toNat (c : Char) : charCodes c.toNat = unitsOf c := by
  unfold charCodes unitsOf
  rw [Nat.shiftRight_eq_div_pow, Nat.and_two_pow_sub_one_eq_mod _ 10]
  split_ifs
  · omega
  · rfl
  · rfl
  · omega

theorem extraOf_ofNat {lead : ℕ} (h : lead < 256) : extraOf (UInt8.ofNat lead) =
    if 0xF0 ≤ lead then 3 else if 0xE0 ≤ lead then 2 else if 0xC0 ≤ lead then 1 else 0 :=
  (by decide +kernel : ∀ lead < 256, extraOf (UInt8.ofNat lead) =
    if 0xF0 ≤ lead then 3 else if 0xE0 ≤ lead then 2 else if 0xC0 ≤ lead then 1 else 0) lead h

theorem codePoint_zero (value : ℕ) (rest : List UInt8) : codePoint 0 value rest = value := rfl

theorem codePoint_low {low : ℕ} (h : low < 64) (extra value : ℕ) (rest : List UInt8) :
    codePoint (extra + 1) value (UInt8.ofNat (low + 128) :: rest) = codePoint extra (value * 64 + low) rest := by
  have hlow : (low + 128) &&& 0x3F = low := by
    rw [Nat.and_two_pow_sub_one_eq_mod _ 6]
    omega
  rw [codePoint, UInt8.toNat_ofNat', Nat.mod_eq_of_lt (by omega), hlow, Nat.shiftLeft_eq, Nat.mul_comm,
    ← Nat.two_pow_add_eq_or_of_lt h, Nat.mul_comm]

theorem decodeLoop_char (c : Char) (fuel : ℕ) (rest : List UInt8) :
    decodeLoop (fuel + 1) (String.utf8EncodeChar c ++ rest) = unitsOf c ++ decodeLoop fuel rest := by
  rw [← charCodes_toNat]
  unfold String.utf8EncodeChar
  change _ = charCodes c.val.toNat ++ _
  have hvalid : c.val.toNat < 0x110000 := by
    obtain hlt | hlt := c.valid
    · exact hlt.trans (by decide)
    · exact hlt.2
  generalize c.val.toNat = n at hvalid ⊢
  have hmod : ∀ k, k % 64 < 64 := fun k => Nat.mod_lt k (by decide)
  dsimp only
  split_ifs
  · have hextra : extraOf (UInt8.ofNat n) = 0 := by
      rw [extraOf_ofNat (by omega)]
      split_ifs <;> omega
    have hlead : leadBits 0 (UInt8.ofNat n).toNat = n := by
      rw [UInt8.toNat_ofNat', Nat.mod_eq_of_lt (by omega)]
      rfl
    simp only [cons_append, nil_append, decodeLoop, hextra, hlead, codePoint_zero,
      drop_zero]
  · have hextra : extraOf (UInt8.ofNat (n / 64 % 32 + 192)) = 1 := by
      rw [extraOf_ofNat (by omega)]
      split_ifs <;> omega
    have hlead : leadBits 1 (UInt8.ofNat (n / 64 % 32 + 192)).toNat = n / 64 := by
      rw [UInt8.toNat_ofNat', Nat.mod_eq_of_lt (by omega)]
      exact (Nat.and_two_pow_sub_one_eq_mod _ 5).trans (by omega)
    simp only [cons_append, nil_append, decodeLoop, hextra, hlead, codePoint_low (hmod _),
      codePoint_zero, drop_succ_cons, drop_zero]
    rw [(by omega : n / 64 * 64 + n % 64 = n)]
  · have hextra : extraOf (UInt8.ofNat (n / 4096 % 16 + 224)) = 2 := by
      rw [extraOf_ofNat (by omega)]
      split_ifs <;> omega
    have hlead : leadBits 2 (UInt8.ofNat (n / 4096 % 16 + 224)).toNat = n / 4096 := by
      rw [UInt8.toNat_ofNat', Nat.mod_eq_of_lt (by omega)]
      exact (Nat.and_two_pow_sub_one_eq_mod _ 4).trans (by omega)
    simp only [cons_append, nil_append, decodeLoop, hextra, hlead, codePoint_low (hmod _),
      codePoint_zero, drop_succ_cons, drop_zero]
    rw [(by omega : (n / 4096 * 64 + n / 64 % 64) * 64 + n % 64 = n)]
  · have hextra : extraOf (UInt8.ofNat (n / 262144 % 8 + 240)) = 3 := by
      rw [extraOf_ofNat (by omega)]
      split_ifs <;> omega
    have hlead : leadBits 3 (UInt8.ofNat (n / 262144 % 8 + 240)).toNat = n / 262144 := by
      rw [UInt8.toNat_ofNat', Nat.mod_eq_of_lt (by omega)]
      exact (Nat.and_two_pow_sub_one_eq_mod _ 3).trans (by omega)
    simp only [cons_append, nil_append, decodeLoop, hextra, hlead, codePoint_low (hmod _),
      codePoint_zero, drop_succ_cons, drop_zero]
    rw [(by omega : ((n / 262144 * 64 + n / 4096 % 64) * 64 + n / 64 % 64) * 64 + n % 64 = n)]

theorem decodeUtf8_pushUtf8 (text : List Char) :
    decodeUtf8 (text.flatMap fun c => pushUtf8 c.toNat) = utf16 text := by
  have hloop : ∀ fuel, (text.flatMap String.utf8EncodeChar).length ≤ fuel →
      decodeLoop fuel (text.flatMap String.utf8EncodeChar) = utf16 text := by
    induction text with
    | nil => intro fuel _; cases fuel <;> rfl
    | cons c text ih =>
      intro fuel hfuel
      have hpos := c.utf8Size_pos
      rw [flatMap_cons, length_append, String.length_utf8EncodeChar] at hfuel
      cases fuel with
      | zero => omega
      | succ fuel =>
        rw [flatMap_cons, decodeLoop_char, ih fuel (by omega)]
        rfl
  rw [flatMap_congr fun c _ => pushUtf8_char c]
  exact hloop _ (Nat.le_refl _)

/-- **The cuts are right**: the parts, the characters that are read back, and the longest start that fits. -/
theorem cuts_right (bytes : List UInt8) (hbytes : Characters bytes) (text : List Char) (size capacity : ℕ)
    (hsize : 4 ≤ size) (hcapacity : 1 ≤ capacity) :
    ((splitUtf8 bytes size).flatten = bytes ∧
      ∀ part ∈ splitUtf8 bytes size, part ≠ [] ∧ Characters part ∧ part.length ≤ size) ∧
    decodeUtf8 (text.flatMap fun c => pushUtf8 c.toNat) = utf16 text ∧
    IsGreatest {n | n < capacity ∧ n ≤ bytes.length ∧ Characters (bytes.take n)}
      (Watch.tbUtf8Fit bytes capacity) :=
  ⟨⟨flatten_splitUtf8 bytes size, splitUtf8_parts hsize hbytes⟩, decodeUtf8_pushUtf8 text,
    fit_greatest hbytes hcapacity⟩

/-- A text that would be split within a character. -/
theorem cuts_right_split :
    (splitUtf8 (utf8 ['a', 'b', 'c', 'é']) 4).flatten = utf8 ['a', 'b', 'c', 'é'] ∧
      ∀ part ∈ splitUtf8 (utf8 ['a', 'b', 'c', 'é']) 4,
        part ≠ [] ∧ Characters part ∧ part.length ≤ 4 :=
  (cuts_right _ ⟨['a', 'b', 'c', 'é'], rfl⟩ [] 4 1 (Nat.le_refl 4) (Nat.le_refl 1)).1

end Link.Cuts
