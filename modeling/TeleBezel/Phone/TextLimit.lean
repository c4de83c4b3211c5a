import Mathlib.Data.Set.List
import TeleBezel.Lib.Trim
import TeleBezel.Phone.Text

/-!
# A text below a limit

What `encode` of `app/src/pkjs/lib/text.js` returns is UTF-8 of characters the watch may show, within the
limit: the whole text, or a start of it and an ellipsis. While more than one character is left the loop
keeps three bytes free for the ellipsis, so that a text whose last character would take the last of them is
cut although it fits.
-/

open List

namespace Phone.Text

open Codec (Encoded)

/-! ### One character -/

def utf8 (text : List Char) : List UInt8 := text.flatMap String.utf8EncodeChar

theorem pushUtf8_char (c : Char) : pushUtf8 c.toNat = String.utf8EncodeChar c := by
  have hor : ∀ i a b, b < 2 ^ i → 2 ^ i * a ||| b = b + 2 ^ i * a := fun i a b hb => by
    rw [← Nat.two_pow_add_eq_or_of_lt hb, Nat.add_comm]
  have hlow : ∀ n : ℕ, 0x80 ||| (n &&& 0x3F) = n % 64 + 128 := fun n => by
    rw [Nat.and_two_pow_sub_one_eq_mod n 6]
    exact hor 6 2 _ (Nat.mod_lt _ (by decide))
  have hvalid : c.toNat < 0x110000 := by
    obtain hlt | hlt := c.valid
    · exact hlt.trans (by decide)
    · exact hlt.2
  change c.val.toNat < _ at hvalid
  change pushUtf8 c.val.toNat = _
  unfold pushUtf8 String.utf8EncodeChar
  generalize c.val.toNat = n at hvalid ⊢
  have hle : ∀ m, (n ≤ m) = (n < m + 1) := fun m => propext Nat.lt_succ_iff.symm
  simp only [hlow, hle, Nat.shiftRight_eq_div_pow, Nat.reducePow, Nat.reduceAdd]
  split_ifs
  · rfl
  · have hlead : 0xC0 ||| n / 64 = n / 64 + 0xC0 := hor 6 3 _ (by omega)
    rw [hlead, Nat.mod_eq_of_lt (by omega : n / 64 < 32)]
  · have hlead : 0xE0 ||| n / 4096 = n / 4096 + 0xE0 := hor 5 7 _ (by omega)
    rw [hlead, Nat.mod_eq_of_lt (by omega : n / 4096 < 16)]
  · have hlead : 0xF0 ||| n / 262144 = n / 262144 + 0xF0 := hor 4 15 _ (by omega)
    rw [hlead, Nat.mod_eq_of_lt (by omega : n / 262144 < 8)]

theorem mem_char {c : Char} {byte : UInt8} (h : byte ∈ String.utf8EncodeChar c) :
    byte.toNat = c.toNat ∨ 0x80 ≤ byte.toNat ∧ 0x80 ≤ c.toNat := by
  have hof : ∀ n : ℕ, n < 128 → 0x80 ≤ (UInt8.ofNat (n + 128)).toNat := fun n hn => by
    rw [UInt8.toNat_ofNat', Nat.mod_eq_of_lt (by omega)]
    omega
  change _ ∨ _ ∧ 0x80 ≤ c.val.toNat
  change byte.toNat = c.val.toNat ∨ _
  unfold String.utf8EncodeChar at h
  generalize c.val.toNat = n at h ⊢
  dsimp only at h
  split_ifs at h with hone
  · rw [mem_singleton.mp h, UInt8.toNat_ofNat', Nat.mod_eq_of_lt (by omega)]
    exact Or.inl rfl
  all_goals
    refine Or.inr ⟨?_, by omega⟩
    simp only [mem_cons, not_mem_nil, or_false] at h
  · rcases h with rfl | rfl <;> exact hof _ (by omega)
  · rcases h with rfl | rfl | rfl <;> exact hof _ (by omega)
  · rcases h with rfl | rfl | rfl | rfl <;> exact hof _ (by omega)

/-! ### What is shown -/

def Control (c : Char) : Prop := c.toNat < 0x20 ∨ 0x7F ≤ c.toNat ∧ c.toNat ≤ 0x9F

def Showable (singleLine : Bool) (c : Char) : Prop :=
  (Control c → c = '\n') ∧ (singleLine = true → c ≠ '\n')

def Whole (point : ℕ) : Prop := point < 0xD800 ∨ 0xDFFF < point

theorem whole_codePoints (value : JsString) : ∀ point ∈ codePoints value, Whole point := by
  have hlone : ∀ unit, Whole (lonePoint unit) := by
    intro unit
    unfold Whole lonePoint inRange
    split_ifs with hpair
    · exact Or.inl (by decide)
    · simp only [Bool.and_eq_true, decide_eq_true_eq] at hpair
      omega
  induction value using codePoints.induct with
  | case1 => exact fun _ hpoint => absurd hpoint not_mem_nil
  | case2 unit => exact forall_mem_singleton.mpr (hlone unit)
  | case3 high low rest hpair ih =>
    rw [codePoints, if_pos hpair]
    exact forall_mem_cons.mpr ⟨Or.inr (by omega), ih⟩
  | case4 high low rest hpair ih =>
    rw [codePoints, if_neg hpair]
    exact forall_mem_cons.mpr ⟨hlone high, ih⟩

theorem gather_suffix (points : List ℕ) : (gather points).2 <:+ points := by
  induction points using gather.induct with
  | case1 => exact suffix_rfl
  | case2 next hbelongs =>
    rw [gather, if_pos hbelongs]
    exact nil_suffix
  | case3 next hbelongs => simp [gather, hbelongs]
  | case4 next joined rest hbelongs more after hgather ih =>
    rw [gather, if_pos hbelongs]
    exact ih.trans (suffix_cons next _)
  | case5 joined rest more after hgather hbelongs ih =>
    rw [gather, if_neg hbelongs, if_pos rfl]
    exact ih.trans ((suffix_cons joined _).trans (suffix_cons _ _))
  | case6 next joined rest hbelongs hjoined => simp [gather, hbelongs, hjoined]

theorem base_mem_of_clusters {fuel : ℕ} {points : List ℕ} {cluster : ℕ × List ℕ}
    (h : cluster ∈ clusters fuel points) : cluster.1 ∈ points := by
  induction fuel generalizing points with
  | zero => exact absurd h (by simp [clusters])
  | succ fuel ih =>
    cases points with
    | nil => exact absurd h (by simp [clusters])
    | cons base points =>
      have hrest : ∀ {after}, after <:+ points → cluster ∈ clusters fuel (gather after).2 →
          cluster.1 ∈ base :: points := fun hsuffix hmem =>
        mem_cons_of_mem _ (((gather_suffix _).trans hsuffix).subset (ih hmem))
      cases points with
      | nil =>
        obtain rfl | h := mem_cons.mp h
        · exact mem_cons_self
        · exact hrest suffix_rfl h
      | cons next rest =>
        simp only [clusters] at h
        split_ifs at h with hregional
        · obtain rfl | h := mem_cons.mp h
          · exact mem_cons_self
          · exact hrest (suffix_cons next rest) h
        · obtain rfl | h := mem_cons.mp h
          · exact mem_cons_self
          · exact hrest suffix_rfl h

theorem resolve_spec {base : ℕ} (hbase : Whole base) (rest : List ℕ) :
    resolve base rest = [] ∨ ∃ c : Char, resolve base rest = [c.toNat] ∧ (Control c → c = '\n') := by
  have hshow : ∀ point, (point < 0xD800 ∨ 0xDFFF < point ∧ point < 0x110000) →
      (0x20 ≤ point ∧ (point < 0x7F ∨ 0x9F < point) ∨ point = 0x0A) →
      ∃ c : Char, [point] = [c.toNat] ∧ (Control c → c = '\n') := by
    intro point hvalid hshown
    have hto : (Char.ofNat point).toNat = point := by
      rw [Char.ofNat, dif_pos hvalid]
      rfl
    refine ⟨Char.ofNat point, by rw [hto], fun hcontrol => ?_⟩
    rw [Control, hto] at hcontrol
    obtain hshown | rfl := hshown
    · omega
    · rfl
  have hplaceholder := hshow placeholder (by decide) (by decide)
  unfold Whole at hbase
  unfold resolve
  by_cases hreturn : base = 0x0D
  · rw [if_pos hreturn]
    exact Or.inr (hshow _ (by decide) (by decide))
  by_cases htab : base = 0x09
  · rw [if_neg hreturn, if_pos htab]
    exact Or.inr (hshow _ (by decide) (by decide))
  rw [if_neg hreturn, if_neg htab]
  split
  · exact Or.inl rfl
  rename_i hnone
  have hshown : 0x20 ≤ base ∧ (base < 0x7F ∨ 0x9F < base) ∨ base = 0x0A := by
    simp only [isRemoved, inRange, Bool.or_eq_true, Bool.and_eq_true, decide_eq_true_eq, not_or] at hnone
    omega
  right
  split
  · split_ifs with hascii
    · exact hshow _ (by omega) hshown
    · exact hplaceholder
  dsimp only
  split
  · exact hplaceholder
  split
  · split_ifs with hwhite
    · refine hshow _ (hbase.imp_right fun hlow => ⟨hlow, ?_⟩) hshown
      -- the emoji that are kept are characters
      simp only [whitelisted, inRange, Bool.or_eq_true, Bool.and_eq_true, decide_eq_true_eq,
        contains_iff_mem] at hwhite
      obtain hface | hlisted := hwhite
      · omega
      · exact (by decide : ∀ point ∈ emoji, point < 0x110000) _ hlisted
    · exact hplaceholder
  · split_ifs with hwide
    · exact hplaceholder
    · exact hshow _ (by omega) hshown

theorem subset_compact (singleLine : Bool) (newlines spaces : ℕ) (list : List (List ℕ)) :
    compact singleLine newlines spaces list ⊆ list := by
  induction list generalizing newlines spaces with
  | nil => exact fun _ hpoints => hpoints
  | cons points rest ih =>
    have hkeep := fun newlines spaces => cons_subset_cons points (ih newlines spaces)
    have hdrop := fun newlines spaces => subset_cons_of_subset points (ih newlines spaces)
    rw [compact]
    dsimp only
    split_ifs
    · exact hkeep _ _
    · exact hdrop _ _
    · exact hdrop _ _
    · exact hkeep _ _
    · exact hkeep _ _

theorem units_spec (normalize : JsString → JsString) (value : JsString) (singleLine : Bool) :
    ∃ text : List Char, units normalize value singleLine = text.map (fun c => [c.toNat]) ∧
      ∀ c ∈ text, Showable singleLine c := by
  let point : { c // Showable singleLine c } → List ℕ := fun c => [c.1.toNat]
  have hunits : units normalize value singleLine ∈ Set.range (List.map point) := by
    rw [Set.range_list_map]
    intro unit hunit
    have hresolved := subset_compact _ _ _ _
      ((dropWhile_suffix _).subset ((List.rdropWhile_prefix _ _).subset hunit))
    obtain ⟨cluster, hcluster, hshown⟩ := mem_filterMap.mp hresolved
    have hwhole := whole_codePoints _ _ (base_mem_of_clusters hcluster)
    unfold shownAs at hshown
    obtain hnone | ⟨c, hc, hcontrol⟩ := resolve_spec hwhole cluster.2
    · rw [hnone] at hshown
      cases hshown
    · rw [hc] at hshown
      obtain rfl := Option.some.inj hshown
      by_cases hline : singleLine = true ∧ c = '\n'
      · refine ⟨⟨' ', by simp [Control], fun _ => by decide⟩, ?_⟩
        rw [if_pos (by simp [hline])]
        rfl
      · refine ⟨⟨c, hcontrol, fun hsingle hnewline => hline ⟨hsingle, hnewline⟩⟩, ?_⟩
        rw [if_neg]
        rw [Bool.and_eq_true, decide_eq_true_eq]
        exact fun hboth => hline ⟨hboth.1, Char.toNat_inj.mp hboth.2⟩
  obtain ⟨text, htext⟩ := hunits
  refine ⟨text.map Subtype.val, by rw [← htext, map_map]; rfl, fun c hc => ?_⟩
  obtain ⟨shown, -, rfl⟩ := mem_map.mp hc
  exact shown.2

/-! ### Where the text is cut -/

/-- A text is written after so many bytes: it fits, and so does the ellipsis after all but its last
character. -/
def Fits (limit used : ℕ) (text : List Char) : Prop :=
  used + (utf8 text).length ≤ limit ∧
    (text.length ≤ 1 ∨ used + (utf8 text.dropLast).length + 3 ≤ limit)

theorem utf8_cons (c : Char) (text : List Char) : utf8 (c :: text) = String.utf8EncodeChar c ++ utf8 text :=
  flatMap_cons

theorem encodeLoop_spec {limit : ℕ} (text : List Char) {bytes : List UInt8} (h : bytes.length ≤ limit) :
    (∃ front rest, text = front ++ rest ∧
      encodeLoop limit (text.map fun c => [c.toNat]) bytes = ⟨bytes ++ utf8 front, decide (rest ≠ [])⟩ ∧
      (rest ≠ [] → front ≠ [] → bytes.length + (utf8 front).length + 3 ≤ limit)) ∧
    ((encodeLoop limit (text.map fun c => [c.toNat]) bytes).truncated = false ↔
      Fits limit bytes.length text) := by
  induction text generalizing bytes with
  | nil =>
    refine ⟨⟨[], [], rfl, by simp [encodeLoop, utf8], fun hne => absurd rfl hne⟩, ?_⟩
    exact iff_of_true rfl ⟨h, Or.inl (by decide)⟩
  | cons c text ih =>
    have hsize : ([c.toNat].map utf8Length).sum = (String.utf8EncodeChar c).length := by
      rw [← length_pushAll, flatMap_singleton, pushUtf8_char]
    rw [map_cons, encodeLoop, hsize, flatMap_singleton, pushUtf8_char]
    simp only [map_eq_nil_iff]
    obtain ⟨reserve, hreserve⟩ : ∃ reserve, (if text = [] then 0 else 3) = reserve := ⟨_, rfl⟩
    rw [hreserve]
    split
    · rename_i hstop
      refine ⟨⟨[], c :: text, rfl, by simp [utf8], fun _ hne => absurd rfl hne⟩, ?_⟩
      refine iff_of_false Bool.noConfusion fun hfits => ?_
      obtain ⟨hwhole, hlast⟩ := hfits
      rw [utf8_cons, length_append] at hwhole
      cases text with
      | nil =>
        rw [if_pos rfl] at hreserve
        omega
      | cons d text =>
        rw [if_neg (cons_ne_nil d text)] at hreserve
        rw [dropLast_cons_cons, utf8_cons, length_append] at hlast
        simp only [length_cons] at hlast
        omega
    · rename_i hroom
      have hlength : (bytes ++ String.utf8EncodeChar c).length =
          bytes.length + (String.utf8EncodeChar c).length := length_append
      obtain ⟨⟨front, rest, rfl, hloop, hleft⟩, hfits⟩ := @ih (bytes ++ String.utf8EncodeChar c) (by omega)
      refine ⟨⟨c :: front, rest, rfl, ?_, fun hrest _ => ?_⟩, hfits.trans ?_⟩
      · rw [hloop, utf8_cons, append_assoc]
      · rw [utf8_cons, length_append]
        rw [hlength] at hleft
        cases front with
        | nil =>
          rw [nil_append, if_neg hrest] at hreserve
          simp only [utf8, flatMap_nil, length_nil]
          omega
        | cons d front =>
          have hnext := hleft hrest (cons_ne_nil d front)
          omega
      · generalize front ++ rest = text at hreserve
        rw [Fits, Fits, hlength, utf8_cons, length_append, ← Nat.add_assoc]
        cases text with
        | nil => exact and_congr_right fun _ => iff_of_true (Or.inl (by decide)) (Or.inl (Nat.le_refl 1))
        | cons d text =>
          rw [if_neg (cons_ne_nil d text)] at hreserve
          rw [dropLast_cons_cons, utf8_cons c, length_append, ← Nat.add_assoc]
          refine and_congr_right fun _ => ?_
          cases text with
          | nil =>
            simp only [utf8, dropLast_singleton, flatMap_nil, length_nil]
            exact iff_of_true (Or.inl (Nat.le_refl 1)) (Or.inr (by omega))
          | cons e text => simp only [length_cons]; omega

theorem makeRoom_eq {limit fuel : ℕ} {bytes : List UInt8} (h : bytes ≠ [] → bytes.length + 3 ≤ limit) :
    makeRoom limit fuel bytes = bytes := by
  cases fuel with
  | zero => rfl
  | succ fuel =>
    rw [makeRoom, if_neg]
    rintro ⟨hne, hover⟩
    have hroom := h (ne_nil_of_length_pos hne)
    omega

def blankChar (c : Char) : Bool := c = ' ' || c = '\n'

theorem rdropWhile_utf8 (text : List Char) :
    (utf8 text).rdropWhile (fun byte => byte = 0x20 || byte = 0x0A) = utf8 (text.rdropWhile blankChar) := by
  refine Trim.rdropWhile_flatMap (fun _ => String.utf8EncodeChar_ne_nil) (fun c byte hbyte => ?_) text
  rw [Bool.eq_iff_iff]
  simp only [blankChar, Bool.or_eq_true, decide_eq_true_eq, ← UInt8.toNat_inj, ← Char.toNat_inj]
  obtain heq | ⟨hbyte, hc⟩ := mem_char hbyte
  · rw [heq]
    rfl
  · have hascii : (0x20 : UInt8).toNat < 0x80 ∧ (0x0A : UInt8).toNat < 0x80 ∧ ' '.toNat < 0x80 ∧
        '\n'.toNat < 0x80 := by decide
    omega

theorem encode_spec {normalize : JsString → JsString} {value : JsString} {singleLine : Bool}
    {text : List Char} (htext : units normalize value singleLine = text.map fun c => [c.toNat]) (limit : ℕ) :
    ((encode normalize value limit singleLine).truncated = false ↔ Fits limit 0 text) ∧
    ((encode normalize value limit singleLine).truncated = false →
      (encode normalize value limit singleLine).bytes = utf8 text) ∧
    ((encode normalize value limit singleLine).truncated = true → ∃ front, front <+: text ∧
      (encode normalize value limit singleLine).bytes =
        utf8 (front.rdropWhile blankChar ++ if 3 ≤ limit then ['…'] else [])) := by
  obtain ⟨⟨front, rest, rfl, hloop, hleft⟩, hfits⟩ :=
    @encodeLoop_spec limit text [] (Nat.zero_le limit)
  rw [length_nil] at hfits
  rw [encode, htext, ← hfits, hloop]
  dsimp only
  split
  · rename_i hcut
    have hrest := of_decide_eq_true hcut
    refine ⟨iff_of_false Bool.noConfusion (by simp [hrest]), Bool.noConfusion, fun _ => ⟨front, prefix_append front rest, ?_⟩⟩
    have hroom := hleft hrest
    have hstay : makeRoom limit ([] ++ utf8 front).length ([] ++ utf8 front) = utf8 front := by
      rw [nil_append]
      refine makeRoom_eq fun hne => ?_
      have hfront : front ≠ [] := fun hnil => hne (by rw [hnil]; rfl)
      have hleft := hroom hfront
      rwa [length_nil, Nat.zero_add] at hleft
    rw [hstay, rdropWhile_utf8]
    split
    · rw [utf8, utf8, flatMap_append, flatMap_singleton, ← pushUtf8_char]
      rfl
    · rw [append_nil]
  · rename_i hwhole
    have hrest : rest = [] := by simpa using hwhole
    subst hrest
    exact ⟨Iff.rfl, fun _ => by rw [nil_append, append_nil], by simp⟩

def size (list : List (List ℕ)) : ℕ := (list.flatten.map utf8Length).sum

/-- The text is too long, or leaves room for the ellipsis after all but its last character, if it has
more than that one. -/
def Clear (limit : ℕ) (list : List (List ℕ)) : Prop :=
  size list ≤ limit → list.length ≤ 1 ∨ size list.dropLast + 3 ≤ limit

instance (limit : ℕ) (list : List (List ℕ)) : Decidable (Clear limit list) :=
  inferInstanceAs (Decidable (_ → _))

/-- The text, or its begin with an ellipsis, within the limit. -/
structure Shortened (full : List Char) (maxBytes : ℤ) (singleLine : Bool) (encoded : Encoded) : Prop where
  chars : ∃ text, encoded.bytes = utf8 text ∧ ∀ c ∈ text, Showable singleLine c
  within : (encoded.bytes.length : ℤ) ≤ max 0 maxBytes
  whole : encoded.truncated = false → encoded.bytes = utf8 full
  cut : encoded.truncated = true → 3 ≤ maxBytes →
    ∃ front, front <+: full ∧ encoded.bytes = utf8 (front.rdropWhile blankChar ++ ['…'])

/-- The flag tells besides whether the text is longer than the limit. -/
structure Encodes (full : List Char) (maxBytes : ℤ) (singleLine : Bool) (encoded : Encoded) : Prop
    extends Shortened full maxBytes singleLine encoded where
  flag : encoded.truncated = true ↔ max 0 maxBytes < (utf8 full).length

theorem size_chars (text : List Char) : size (text.map fun c => [c.toNat]) = (utf8 text).length := by
  have hflatten : (text.map fun c => [c.toNat]).flatten = text.map Char.toNat := flatMap_pure_eq_map _ _
  rw [size, ← length_pushAll, hflatten, flatMap_map, utf8]
  exact congrArg List.length (flatMap_congr fun c _ => pushUtf8_char c)

theorem full_spec {normalize : JsString → JsString} {value : JsString} {singleLine : Bool}
    {text : List Char} (htext : units normalize value singleLine = text.map fun c => [c.toNat]) {limit : ℕ}
    (h : (utf8 text).length + 3 ≤ limit) : encode normalize value limit singleLine = ⟨utf8 text, false⟩ := by
  obtain ⟨hfits, hwhole, -⟩ := encode_spec htext limit
  have hlast : (utf8 text.dropLast).length ≤ (utf8 text).length := by
    obtain rfl | ⟨text, c, rfl⟩ := eq_nil_or_concat' text
    · exact Nat.le_refl _
    · rw [dropLast_concat, utf8, utf8, flatMap_append, length_append]
      exact Nat.le_add_right _ _
  have hflag := hfits.mpr ⟨by omega, Or.inr (by omega)⟩
  rw [← hwhole hflag, ← hflag]

/-- **The text is encoded, and the flag tells whether it is too long for as long as it does not end just
below the limit.** -/
theorem encodes_iff (normalize : JsString → JsString) (value : JsString) (maxBytes : ℤ) (singleLine : Bool) :
    ∃ full bound, (∀ limit, bound ≤ limit → encode normalize value limit singleLine = ⟨utf8 full, false⟩) ∧
      Shortened full maxBytes singleLine (encode normalize value (max 0 maxBytes).toNat singleLine) ∧
      (Encodes full maxBytes singleLine (encode normalize value (max 0 maxBytes).toNat singleLine) ↔
        Clear (max 0 maxBytes).toNat (units normalize value singleLine)) := by
  obtain ⟨full, hfull, hshow⟩ := units_spec normalize value singleLine
  obtain ⟨limit, hlimit⟩ : ∃ limit : ℕ, max 0 maxBytes = limit :=
    ⟨_, (Int.toNat_of_nonneg (le_max_left _ _)).symm⟩
  rw [hlimit, Int.toNat_natCast]
  obtain ⟨hfits, hwhole, hcut⟩ := encode_spec hfull limit
  have hshort : Shortened full maxBytes singleLine (encode normalize value limit singleLine) := by
    refine ⟨?_, ?_, hwhole, fun hflag hthree => ?_⟩
    · cases hflag : (encode normalize value limit singleLine).truncated with
      | false => exact ⟨full, hwhole hflag, hshow⟩
      | true =>
        obtain ⟨front, hfront, hbytes⟩ := hcut hflag
        refine ⟨_, hbytes, fun c hc => ?_⟩
        obtain hc | hc := List.mem_append.mp hc
        · exact hshow c (hfront.subset ((List.rdropWhile_prefix _ _).subset hc))
        · split_ifs at hc
          · rw [List.mem_singleton.mp hc]
            exact ⟨fun hcontrol => absurd hcontrol (by unfold Control; decide), fun _ => by decide⟩
          · exact absurd hc List.not_mem_nil
    · rw [hlimit]
      exact_mod_cast length_encode_le normalize value limit singleLine
    · obtain ⟨front, hfront, hbytes⟩ := hcut hflag
      rw [if_pos (by omega)] at hbytes
      exact ⟨front, hfront, hbytes⟩
  refine ⟨full, (utf8 full).length + 3, fun _ => full_spec hfull, hshort, ?_⟩
  have hflag : Encodes full maxBytes singleLine (encode normalize value limit singleLine) ↔
      ((encode normalize value limit singleLine).truncated = false ↔ (utf8 full).length ≤ limit) := by
    constructor
    · intro h
      have hlong := h.flag
      rw [hlimit, Nat.cast_lt] at hlong
      rw [← not_iff_not, Bool.not_eq_false, not_le, hlong]
    · intro h
      refine ⟨hshort, ?_⟩
      rw [hlimit, Nat.cast_lt, ← not_iff_not, Bool.not_eq_true, not_lt, h]
  rw [hflag, hfits, Clear, hfull, ← List.map_dropLast, size_chars, size_chars, List.length_map, Fits,
    Nat.zero_add, Nat.zero_add]
  exact and_iff_left_iff_imp

/-- A text of five bytes, written where there are five: its end is cut off. -/
theorem hello_cut : ¬ ∃ full bound,
    (∀ limit, bound ≤ limit → encode id [104, 101, 108, 108, 111] limit false = ⟨utf8 full, false⟩) ∧
      Encodes full 5 false (encode id [104, 101, 108, 108, 111] 5 false) := by
  rintro ⟨full, bound, hfull, h⟩
  have hunits : units id [104, 101, 108, 108, 111] false =
      ['h', 'e', 'l', 'l', 'o'].map fun c => [c.toNat] := by decide
  have hlong : (utf8 ['h', 'e', 'l', 'l', 'o']).length + 3 ≤ bound + 8 := Nat.le_add_left 8 bound
  have hbytes : utf8 full = utf8 ['h', 'e', 'l', 'l', 'o'] :=
    congrArg Encoded.bytes
      ((hfull (bound + 8) (Nat.le_add_right bound 8)).symm.trans (full_spec hunits hlong))
  have hflag := h.flag.mp (by decide)
  rw [hbytes] at hflag
  exact absurd hflag (by decide)

end Phone.Text
