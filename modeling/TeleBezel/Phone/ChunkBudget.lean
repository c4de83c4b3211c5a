import TeleBezel.Phone.Replies

/-!
# What fits the inbox of the watch

`pack` never splits a record, so a chunk is too long exactly when a record is. The limit of a text leaves
room for the other fields of a chat (186 bytes), of an account, of a template and of an image; the fields
of a message take up to 322 bytes beside its text, where 200 are left for them, and nothing limits the id
of a message in the record of a send, nor that of the default account.
-/

open List

namespace Phone.Replies

open Codec Text

/-! ### Chunks of records -/

section Pack

theorem exceededBy_finite (budget : ℤ) (length : ℕ) :
    (JsNumber.finite budget).exceededBy length = decide (budget < length) := by
  have hcast : ((budget : ℚ) < (length : ℚ)) ↔ budget < (length : ℤ) := by exact_mod_cast Iff.rfl
  exact decide_eq_decide.mpr hcast

variable {budget : ℤ}

def chunksOf (state : List (List UInt8) × List UInt8) : List (List UInt8) := state.1 ++ [state.2]

theorem packStep_fits (state : List (List UInt8) × List UInt8) (item : List UInt8) :
    (∀ chunk ∈ chunksOf (packStep (.finite budget) state item), (chunk.length : ℤ) ≤ budget) ↔
      (∀ chunk ∈ chunksOf state, (chunk.length : ℤ) ≤ budget) ∧ (item.length : ℤ) ≤ budget := by
  obtain ⟨chunks, current⟩ := state
  unfold packStep chunksOf
  simp only [exceededBy_finite, decide_eq_true_eq]
  split
  · rename_i hfull
    simp only [mem_append, mem_singleton, or_imp, forall_and, forall_eq]
  · rename_i hroom
    simp only [mem_append, mem_singleton, or_imp, forall_and, forall_eq, length_append]
    have hiff : ((current.length + item.length : ℕ) : ℤ) ≤ budget ↔
        (current.length : ℤ) ≤ budget ∧ (item.length : ℤ) ≤ budget := by
      omega
    rw [hiff, and_assoc]

theorem foldl_fits (records : List (List UInt8)) (state : List (List UInt8) × List UInt8) :
    (∀ chunk ∈ chunksOf (records.foldl (packStep (.finite budget)) state),
        (chunk.length : ℤ) ≤ budget) ↔
      (∀ chunk ∈ chunksOf state, (chunk.length : ℤ) ≤ budget) ∧
        ∀ item ∈ records, (item.length : ℤ) ≤ budget := by
  induction records generalizing state with
  | nil => simp
  | cons item records ih =>
    rw [foldl_cons, ih, packStep_fits, forall_mem_cons, and_assoc]

theorem pack_fits_iff (hbudget : 0 ≤ budget) (records : List (List UInt8)) :
    (∀ chunk ∈ pack records (.finite budget), (chunk.length : ℤ) ≤ budget) ↔
      ∀ item ∈ records, (item.length : ℤ) ≤ budget := by
  have hall := @foldl_fits budget records ([], [])
  have hempty : ∀ chunk ∈ chunksOf ([], []), (chunk.length : ℤ) ≤ budget := by
    intro chunk hchunk
    rw [mem_singleton.mp hchunk]
    exact hbudget
  rw [iff_true_intro hempty, true_and] at hall
  rw [← hall]
  unfold pack chunksOf
  generalize records.foldl (packStep (.finite budget)) ([], []) = state
  dsimp only
  split
  · exact Iff.rfl
  · -- the last chunk has nothing in it
    rename_i hlast
    have hnil : state.2 = [] := by
      rw [not_or] at hlast
      exact length_eq_zero_iff.mp (by omega)
    rw [hnil]
    simp only [mem_append, mem_singleton, or_imp, forall_and, forall_eq]
    simp [hbudget]

/-- A group of records that may be a chunk: it is within the budget, or there is nothing to split. -/
def Fitting (budget : ℤ) (group : List (List UInt8)) : Prop :=
  (group.flatten.length : ℤ) ≤ budget ∨ group.length ≤ 1

def Grouped (budget : ℤ) (done : List (List UInt8)) (state : List (List UInt8) × List UInt8) : Prop :=
  ∃ (groups : List (List (List UInt8))) (last : List (List UInt8)), groups.flatten ++ last = done ∧
    state = (groups.map flatten, last.flatten) ∧ (∀ group ∈ groups, Fitting budget group) ∧ Fitting budget last

theorem Grouped.step {done : List (List UInt8)} {state : List (List UInt8) × List UInt8}
    (h : Grouped budget done state) (hdone : ∀ record ∈ done, record ≠ []) (item : List UInt8) :
    Grouped budget (done ++ [item]) (packStep (.finite budget) state item) := by
  obtain ⟨groups, last, rfl, rfl, hgroups, hlast⟩ := h
  unfold packStep
  simp only [exceededBy_finite, decide_eq_true_eq]
  split_ifs with hfull
  · -- what was being filled is a chunk, and the item begins the next one
    refine ⟨groups ++ [last], [item], by simp, by simp, ?_, Or.inr (Nat.le_refl 1)⟩
    exact forall_mem_append.mpr ⟨hgroups, forall_mem_singleton.mpr hlast⟩
  · refine ⟨groups, last ++ [item], by simp, by simp, hgroups, ?_⟩
    cases last with
    | nil => exact Or.inr (Nat.le_refl 1)
    | cons record last =>
      -- a record has bytes, so that what is being filled has some and the item fits beside it
      have hpos : 0 < ((record :: last).flatten).length := by
        have := length_pos_iff.mpr (hdone record (by simp))
        rw [flatten_cons, length_append]
        omega
      left
      rw [flatten_append, length_append, flatten_singleton]
      omega

def chunkCount (state : List (List UInt8) × List UInt8) : ℕ :=
  state.1.length + if state.2 = [] then 0 else 1

theorem chunkCount_bounds (state : List (List UInt8) × List UInt8) :
    state.1.length ≤ chunkCount state ∧ chunkCount state ≤ state.1.length + 1 := by
  unfold chunkCount
  split_ifs <;> omega

theorem length_pack (records : List (List UInt8)) (budget : JsNumber) :
    (pack records budget).length = max 1 (chunkCount (records.foldl (packStep budget) ([], []))) := by
  unfold pack chunkCount
  generalize records.foldl (packStep budget) ([], []) = state
  dsimp only
  by_cases hempty : state.2 = []
  · by_cases hnone : state.1.length = 0
    · simp [hempty, hnone]
    · simp [hempty, hnone]
      omega
  · have hpos := length_pos_iff.mpr hempty
    rw [if_pos (Or.inl hpos), if_neg hempty, length_append, length_singleton]
    omega

theorem foldl_room (records : List (List UInt8)) : ∀ state : List (List UInt8) × List UInt8,
    ((state.2.length + records.flatten.length : ℕ) : ℤ) ≤ budget →
      records.foldl (packStep (.finite budget)) state = (state.1, state.2 ++ records.flatten) := by
  induction records with
  | nil =>
    intro state _
    simp
  | cons item records ih =>
    intro state hroom
    rw [flatten_cons, length_append] at hroom
    have hstep : packStep (.finite budget) state item = (state.1, state.2 ++ item) := by
      rw [packStep, if_neg]
      simp only [exceededBy_finite, decide_eq_true_eq]
      omega
    rw [foldl_cons, hstep, ih _ (by rw [length_append]; omega), flatten_cons, append_assoc]

theorem chunkCount_group {group : List (List UInt8)} (h : Fitting budget group) :
    ∀ state, chunkCount (group.foldl (packStep (.finite budget)) state) ≤ chunkCount state + 1 := by
  induction group with
  | nil => exact fun state => Nat.le_succ _
  | cons item group ih =>
    intro state
    rw [foldl_cons, packStep]
    split_ifs with hfull
    · -- the item begins a chunk that has room for the rest of the group
      have hstate : state.2 ≠ [] := length_pos_iff.mp hfull.1
      have hrest : group.foldl (packStep (.finite budget)) (state.1 ++ [state.2], item) =
          (state.1 ++ [state.2], item ++ group.flatten) := by
        rcases h with hroom | hone
        · apply foldl_room
          rwa [flatten_cons, length_append] at hroom
        · obtain rfl := length_eq_zero_iff.mp (Nat.le_zero.mp (Nat.le_of_succ_le_succ hone))
          simp
      have hcount : chunkCount state = (state.1 ++ [state.2]).length := by
        rw [chunkCount, if_neg hstate, length_append, length_singleton]
      rw [hrest, hcount]
      exact (chunkCount_bounds _).2
    · have hbefore := (chunkCount_bounds state).1
      rcases h with hroom | hone
      · rw [flatten_cons, length_append] at hroom
        by_cases hempty : state.2 = []
        · rw [foldl_room _ _ (by simpa [hempty] using hroom)]
          exact (chunkCount_bounds _).2.trans (Nat.succ_le_succ hbefore)
        · have hcount : chunkCount (state.1, state.2 ++ item) = chunkCount state := by
            simp [chunkCount, hempty]
          rw [← hcount]
          exact ih (Or.inl (by omega)) _
      · obtain rfl := length_eq_zero_iff.mp (Nat.le_zero.mp (Nat.le_of_succ_le_succ hone))
        exact (chunkCount_bounds _).2.trans (Nat.succ_le_succ hbefore)

theorem chunkCount_groups (groups : List (List (List UInt8))) :
    (∀ group ∈ groups, Fitting budget group) → ∀ state,
      chunkCount (groups.flatten.foldl (packStep (.finite budget)) state) ≤
        chunkCount state + groups.length := by
  induction groups with
  | nil => exact fun _ _ => Nat.le_refl _
  | cons group groups ih =>
    intro h state
    rw [forall_mem_cons] at h
    have hgroup := chunkCount_group h.1 state
    have hgroups := ih h.2 (group.foldl (packStep (.finite budget)) state)
    rw [flatten_cons, foldl_append, length_cons]
    omega

/-- **`pack` needs the fewest messages**: its chunks are groups of records in their order, each within the
budget or a single record, and no such groups are fewer. -/
theorem fewest_chunks (budget : ℤ) (records : List (List UInt8)) (hrecords : ∀ record ∈ records, record ≠ []) :
    (∃ groups : List (List (List UInt8)), groups.flatten = records ∧
      (∀ group ∈ groups, Fitting budget group) ∧ pack records (.finite budget) = groups.map flatten) ∧
    ∀ groups : List (List (List UInt8)), groups.flatten = records → (∀ group ∈ groups, Fitting budget group) →
      (pack records (.finite budget)).length ≤ max 1 groups.length := by
  constructor
  · have hgrouped : Grouped budget records (records.foldl (packStep (.finite budget)) ([], [])) := by
      induction records using List.reverseRecOn with
      | nil => exact ⟨[], [], rfl, rfl, nofun, Or.inr (Nat.zero_le 1)⟩
      | append_singleton records item ih =>
        rw [forall_mem_append] at hrecords
        rw [foldl_append]
        exact (ih hrecords.1).step hrecords.1 item
    obtain ⟨groups, last, hdone, hstate, hgroups, hlast⟩ := hgrouped
    rw [pack, hstate]
    dsimp only
    split_ifs with hkept
    · refine ⟨groups ++ [last], by simp [hdone], ?_, by simp⟩
      exact forall_mem_append.mpr ⟨hgroups, forall_mem_singleton.mpr hlast⟩
    · refine ⟨groups, ?_, hgroups, rfl⟩
      have hnil : last = [] := by
        rw [not_or, Nat.not_lt, Nat.le_zero, length_eq_zero_iff, flatten_eq_nil_iff] at hkept
        refine eq_nil_iff_forall_not_mem.mpr fun record hmem => ?_
        exact hrecords record (by rw [← hdone]; exact mem_append_right _ hmem) (hkept.1 record hmem)
      rw [← hdone, hnil, append_nil]
  · rintro groups rfl hgroups
    have hcount := chunkCount_groups groups hgroups ([], [])
    rw [length_pack]
    have hstart : chunkCount ([], []) = 0 := rfl
    omega

theorem fewest_chunks_three :
    (pack [[1, 2, 3], [4, 5, 6], [7, 8]] (.finite 6)).length ≤ max 1 [[[1, 2, 3], [4, 5, 6]], [[7, 8]]].length :=
  (fewest_chunks 6 _ (by decide)).2 [[[1, 2, 3], [4, 5, 6]], [[7, 8]]] rfl (by simp [Fitting])

end Pack

/-! ### Parts of a text -/

section Parts

/-- Wherever bytes are taken up, the character that they are in has at most three more of them. -/
def ShortRuns (bytes : List UInt8) : Prop := ∀ n, ((bytes.drop n).takeWhile continues).length ≤ 3

theorem shortRuns_nil : ShortRuns [] := by
  intro n
  rw [drop_nil]
  exact Nat.zero_le 3

theorem ShortRuns.drop {bytes : List UInt8} (h : ShortRuns bytes) (m : ℕ) :
    ShortRuns (bytes.drop m) := by
  intro n
  rw [drop_drop]
  exact h (m + n)

theorem ShortRuns.of_first {bytes first : List UInt8} (h : ShortRuns bytes) (hfirst : first <+: bytes) :
    ShortRuns first := by
  intro n
  rw [prefix_iff_eq_take.mp hfirst, drop_take, ← take_takeWhile, length_take]
  exact (Nat.min_le_right _ _).trans (h n)

theorem continues_or {lead : ℕ} (hlead : lead ∈ [0xC0, 0xE0, 0xF0]) (value : ℕ) :
    continues (UInt8.ofNat (lead ||| value)) = false := by
  have hall : ∀ lead ∈ [0xC0, 0xE0, 0xF0], ∀ n < 256,
      continues (UInt8.ofNat lead ||| UInt8.ofNat n) = false := by
    decide +kernel
  have hmod : UInt8.ofNat value = UInt8.ofNat (value % 256) := by
    apply UInt8.toNat.inj
    simp
  rw [UInt8.ofNat_or, hmod]
  exact hall lead hlead _ (Nat.mod_lt _ (by decide))

theorem pushUtf8_eq (value : ℕ) : ∃ lead rest, pushUtf8 value = lead :: rest ∧
    continues lead = false ∧ rest.length ≤ 3 := by
  unfold pushUtf8
  split
  · rename_i hlt
    have hall : ∀ n < 0x80, continues (UInt8.ofNat n) = false := by decide +kernel
    exact ⟨_, [], rfl, hall value hlt, by decide⟩
  split
  · exact ⟨_, _, rfl, continues_or (by decide) _, by simp⟩
  split
  · exact ⟨_, _, rfl, continues_or (by decide) _, by simp⟩
  · exact ⟨_, _, rfl, continues_or (by decide) _, by simp⟩

theorem ShortRuns.push {bytes : List UInt8} (h : ShortRuns bytes) (value : ℕ) :
    ShortRuns (bytes ++ pushUtf8 value) := by
  obtain ⟨lead, more, heq, hlead, hmore⟩ := pushUtf8_eq value
  have hnone : (lead :: more).takeWhile continues = [] :=
    takeWhile_cons_of_neg (by rw [hlead]; simp)
  intro n
  rw [heq, drop_append, takeWhile_append]
  by_cases hn : n ≤ bytes.length
  · -- the character is not begun
    have hzero : n - bytes.length = 0 := by omega
    rw [hzero, drop_zero, hnone, append_nil]
    split
    · rename_i hfull
      rw [← hfull]
      exact h n
    · exact h n
  · have hnil : bytes.drop n = [] := drop_of_length_le (by omega)
    obtain ⟨k, hk⟩ : ∃ k, n - bytes.length = k + 1 := ⟨n - bytes.length - 1, by omega⟩
    rw [hnil, hk, drop_succ_cons]
    refine (List.takeWhile_prefix continues).length_le.trans ?_
    rw [length_drop]
    omega

theorem ShortRuns.pushAll {bytes : List UInt8} (h : ShortRuns bytes) (unit : List ℕ) :
    ShortRuns (bytes ++ unit.flatMap pushUtf8) := by
  induction unit generalizing bytes with
  | nil => rwa [flatMap_nil, append_nil]
  | cons value unit ih =>
    rw [flatMap_cons, ← append_assoc]
    exact ih (h.push value)

theorem shortRuns_encodeLoop {limit : ℕ} (list : List (List ℕ)) {bytes : List UInt8}
    (h : ShortRuns bytes) : ShortRuns (encodeLoop limit list bytes).bytes := by
  induction list generalizing bytes with
  | nil => exact h
  | cons unit rest ih =>
    rw [encodeLoop]
    generalize (if rest = [] then 0 else 3) = reserve
    split
    · exact h
    · exact ih (h.pushAll unit)

theorem makeRoom_first (limit fuel : ℕ) (bytes : List UInt8) :
    makeRoom limit fuel bytes <+: bytes := by
  induction fuel generalizing bytes with
  | zero => exact prefix_refl bytes
  | succ fuel ih =>
    rw [makeRoom]
    split
    · exact (ih _).trans (List.take_prefix _ _)
    · exact prefix_refl bytes

theorem shortRuns_encode (normalize : JsString → JsString) (value : JsString) (limit : ℕ)
    (singleLine : Bool) : ShortRuns (encode normalize value limit singleLine).bytes := by
  have hloop := @shortRuns_encodeLoop limit (units normalize value singleLine) [] shortRuns_nil
  rw [encode]
  split
  · generalize (encodeLoop limit (units normalize value singleLine) []).bytes = bytes at hloop ⊢
    have hcut := hloop.of_first ((List.rdropWhile_prefix (fun byte => byte = 0x20 || byte = 0x0A)
      (makeRoom limit bytes.length bytes)).trans (makeRoom_first limit bytes.length bytes))
    split
    · exact hcut.push ellipsis
    · exact hcut
  · exact hloop

theorem partEnd_le {bytes : List UInt8} (h : ShortRuns bytes) {size : ℕ} (hsize : 4 ≤ size) :
    partEnd size bytes ≤ size := by
  have hstart := Parts.back_le bytes size
  rw [partEnd]
  dsimp only
  split
  · split
    · have := h 1
      omega
    · exact hstart
  · omega

theorem length_part_le {bytes : List UInt8} (h : ShortRuns bytes) {size : ℕ} (hsize : 4 ≤ size) :
    ∀ part ∈ splitUtf8 bytes size, part.length ≤ size := by
  unfold splitUtf8
  generalize bytes.length = fuel
  induction fuel generalizing bytes with
  | zero => exact fun _ => nofun
  | succ fuel ih =>
    cases hbytes : bytes with
    | nil => exact fun _ => nofun
    | cons byte rest =>
      rw [← hbytes]
      have hsplit : splitLoop size (fuel + 1) bytes =
          bytes.take (partEnd size bytes) :: splitLoop size fuel (bytes.drop (partEnd size bytes)) := by
        rw [hbytes]
        rfl
      rw [hsplit]
      intro part hpart
      rcases mem_cons.mp hpart with rfl | hpart
      · exact (length_take_le _ _).trans (partEnd_le h hsize)
      · exact ih (h.drop _) part hpart

end Parts

/-! ### Lengths of records -/

section Lengths

variable (normalize : JsString → JsString)

theorem length_line_le (value : JsString) {limit : ℕ} (hlimit : 0 < limit) :
    (line (encode normalize) value limit).length ≤ limit ∧
      (line (encode normalize) value limit).length ≤ 255 := by
  have hle := length_encode_le normalize value (min (if limit = 0 then 255 else limit) 255) true
  rw [if_neg hlimit.ne'] at hle
  unfold line
  rw [if_neg hlimit.ne']
  omega

theorem length_str8 (value : JsString) {limit : ℕ} (hlimit : 0 < limit) :
    (str8 (encode normalize) value limit).length =
      1 + (line (encode normalize) value limit).length :=
  length_raw8 (length_line_le normalize value hlimit).2

variable {id : JsString}

theorem length_ascii_message (h : messagePattern id = true) :
    (ascii (some id)).length ≤ 19 := by
  rw [ascii, length_map, Option.getD_some]
  refine (length_take_le' _ _).trans ?_
  cases id with
  | nil => cases h
  | cons unit rest =>
    simp only [messagePattern, Bool.and_eq_true, decide_eq_true_eq] at h
    rw [length_cons]
    omega

theorem length_ascii_chat (h : chatPattern id = true) :
    (ascii (some id)).length ≤ 20 := by
  unfold chatPattern at h
  split at h
  · rename_i rest
    have hrest := length_ascii_message h
    rw [ascii, length_map, Option.getD_some, length_take] at hrest ⊢
    rw [length_cons]
    omega
  · exact (length_ascii_message h).trans (by decide)

theorem length_ascii_account (h : accountPattern id = true) :
    (ascii (some id)).length ≤ 36 := by
  simp only [accountPattern, Bool.and_eq_true, decide_eq_true_eq] at h
  rw [ascii, length_map, Option.getD_some]
  exact (length_take_le' _ _).trans h.1.le

end Lengths

/-! ### What fits -/

section Fits

variable (normalize : JsString → JsString)

def messageTexts (value : Codec.Message JsString) (textLimit : ℕ) : ℕ :=
  (ascii value.id).length + (line (encode normalize) value.sender 32).length +
    (line (encode normalize) value.extra 48).length +
    (encode normalize value.text textLimit false).bytes.length + (ascii value.replyId).length +
    (line (encode normalize) value.replySender 32).length +
    (line (encode normalize) value.replyText 64).length +
    (line (encode normalize) value.forwardFrom 48).length +
    (line (encode normalize) value.signature 32).length

def sendTexts (value : SendStateValue JsString) : ℕ :=
  (ascii value.account).length + (ascii value.chat).length + (ascii value.message).length +
    (line (encode normalize) value.title 32).length + (line (encode normalize) value.preview 40).length

def prefsTexts (value : Prefs JsString) : ℕ :=
  (ascii value.defaultAccount).length + (line (encode normalize) value.host 64).length

theorem length_message (value : Codec.Message JsString) (textLimit : ℕ) :
    (Item.bytes (encode normalize) (.message value textLimit)).length =
      28 + messageTexts normalize value textLimit := by
  simp only [Item.bytes, Item.body, length_record, length_flatten, map_cons, map_nil,
    sum_cons, sum_nil, length_u8, length_u16, length_u32, length_ascii8, length_raw16,
    length_str8 normalize _ (by decide : 0 < 32), length_str8 normalize _ (by decide : 0 < 48),
    length_str8 normalize _ (by decide : 0 < 64), messageTexts]
  omega

theorem length_send (value : SendStateValue JsString) (restored : Bool) :
    (Item.bytes (encode normalize) (.sendState value restored)).length =
      17 + sendTexts normalize value := by
  simp only [Item.bytes, Item.body, length_record, length_flatten, map_cons, map_nil,
    sum_cons, sum_nil, length_u8, length_u16, length_u32, length_ascii8,
    length_str8 normalize _ (by decide : 0 < 32), length_str8 normalize _ (by decide : 0 < 40), sendTexts]
  omega

theorem length_prefs (value : Prefs JsString) :
    (Item.bytes (encode normalize) (.prefs value)).length = 9 + prefsTexts normalize value := by
  simp only [Item.bytes, Item.body, length_record, length_flatten, map_cons, map_nil,
    sum_cons, sum_nil, length_u8, length_ascii8,
    length_str8 normalize _ (by decide : 0 < 64), prefsTexts]
  omega

theorem length_chat_le {value : Chat JsString} {id : JsString} (hvalue : value.id = some id)
    (hid : chatPattern id = true) (textLimit : ℕ) :
    (Item.bytes (encode normalize) (.chat value textLimit)).length ≤ 186 + textLimit := by
  have hascii := length_ascii_chat hid
  have htitle := (length_line_le normalize value.title (by decide : 0 < 64)).1
  have hsender := (length_line_le normalize value.previewSender (by decide : 0 < 32)).1
  have hextra := (length_line_le normalize value.previewExtra (by decide : 0 < 48)).1
  have htext := length_encode_le normalize value.previewText textLimit true
  simp only [Item.bytes, Item.body, length_record, length_flatten, map_cons, map_nil,
    sum_cons, sum_nil, length_u8, length_u16, length_u32, length_ascii8, length_raw16,
    length_str8 normalize _ (by decide : 0 < 32), length_str8 normalize _ (by decide : 0 < 48),
    length_str8 normalize _ (by decide : 0 < 64), hvalue]
  omega

theorem length_account_le (defaultAccount : JsString) (account : ApiAccount)
    (hid : accountPattern account.id = true) :
    (Item.bytes (encode normalize) (accountRecord defaultAccount account)).length ≤ 91 := by
  unfold accountRecord
  have hascii := length_ascii_account hid
  have hname := (length_line_le normalize (accountName account) (by decide : 0 < 48)).1
  simp only [Item.bytes, Item.body, length_record, length_flatten, map_cons, map_nil,
    sum_cons, sum_nil, length_u8, length_ascii8,
    length_str8 normalize _ (by decide : 0 < 48)]
  omega

theorem length_template_le (value : Template JsString) (previewLimit : ℕ) :
    (Item.bytes (encode normalize) (.template value previewLimit)).length ≤ 103 := by
  have hlimit : 0 < templateLimit previewLimit ∧ templateLimit previewLimit ≤ 96 := by
    unfold templateLimit
    split <;> omega
  have hpreview := (length_line_le normalize value.preview hlimit.1).1
  simp only [Item.bytes, Item.body, length_record, length_flatten, map_cons, map_nil,
    sum_cons, sum_nil, length_u8, length_u16, length_str8 normalize _ hlimit.1]
  omega

theorem length_text (bytes : List UInt8) :
    (Item.bytes (encode normalize) (.text bytes)).length = 5 + bytes.length := by
  simp only [Item.bytes, Item.body, length_record, length_flatten, map_cons, map_nil,
    sum_cons, sum_nil, length_raw16]
  omega

/-! ### The messages of an image -/

def Named (info : Phone.MediaInfo) : Prop := info.item = [] ∨ messagePattern info.item = true

theorem Named.length_mediaInfo_le {info : Phone.MediaInfo} (h : Named info) :
    (mediaInfo info).length ≤ 37 := by
  have hitem : info.item.length ≤ 19 := by
    rcases h with hnil | hpattern
    · rw [hnil]
      exact Nat.zero_le _
    · cases hcase : info.item with
      | nil => exact Nat.zero_le _
      | cons unit rest =>
        rw [hcase] at hpattern
        simp only [messagePattern, Bool.and_eq_true, decide_eq_true_eq] at hpattern
        rw [length_cons]
        omega
  exact Phone.length_mediaInfo_le hitem

theorem length_chunksLoop_le {infoRecord : List UInt8} {budget : ℤ}
    (hinfo : (infoRecord.length : ℤ) ≤ budget) (bytes : List UInt8) (fuel : ℕ) (first : Bool) (position : ℕ) :
    ∀ payload ∈ chunksLoop infoRecord bytes budget fuel first position,
      (payload.length : ℤ) ≤ budget := by
  induction fuel generalizing first position with
  | zero => exact fun _ => nofun
  | succ fuel ih =>
    intro payload hpayload
    rw [chunksLoop] at hpayload
    split at hpayload
    · cases hpayload
    have hhead : ((if first = true then infoRecord else []).length : ℤ) =
        ((if first = true then infoRecord.length else 0 : ℕ) : ℤ) := by
      cases first <;> rfl
    have hle : ((if first = true then infoRecord.length else 0 : ℕ) : ℤ) ≤ budget := by
      cases first
      · exact (Int.natCast_nonneg _).trans hinfo
      · exact hinfo
    generalize ((if first = true then infoRecord.length else 0 : ℕ) : ℤ) = head at hhead hle hpayload
    generalize (if first = true then infoRecord else []) = start at hhead hpayload
    rcases mem_cons.mp hpayload with rfl | hrest
    · rw [length_append, Nat.cast_add, hhead]
      split
      · simpa using hle
      · rename_i hslice
        have hroom : ((bytes.drop position).take (budget - head - 7).toNat).length ≤
            (budget - head - 7).toNat := length_take_le _ _
        have hpos := length_pos_of_ne_nil hslice
        rw [length_mediaData]
        omega
    · split at hrest
      · cases hrest
      · exact ih _ _ payload hrest

/-- **The messages of a request for an image** are within the budget, and what is put into the cache is
named. -/
theorem media_fits {inboxSize : ℕ} {index : ℤ} {offset tag : ℕ} {cached : Option MediaEntry}
    {answer : Option ApiMedia} {inTime : Bool} (hcached : ∀ entry ∈ cached, Named entry.info)
    {payloads : List (List UInt8)} {put : Option MediaEntry}
    (h : media inboxSize index offset tag cached answer inTime = .messages payloads put) :
    (∀ payload ∈ payloads, (payload.length : ℤ) ≤ budget inboxSize) ∧
      ∀ entry ∈ put, Named entry.info := by
  have hbudget := le_budget inboxSize
  have hall : ∀ {info : Phone.MediaInfo}, Named info → ∀ (bytes : List UInt8) (position : ℕ),
      ∀ payload ∈ chunks info bytes position (budget inboxSize),
        (payload.length : ℤ) ≤ budget inboxSize := by
    intro info hnamed bytes position
    have hinfo := hnamed.length_mediaInfo_le
    exact length_chunksLoop_le (by omega) bytes _ _ _
  unfold media at h
  cases cached with
  | some entry =>
    obtain ⟨rfl, rfl⟩ := MediaReply.messages.inj h
    exact ⟨hall (hcached entry rfl) _ _, fun _ => nofun⟩
  | none =>
    cases answer with
    | none => cases h
    | some data =>
      dsimp only at h
      have hitem : (if messagePattern data.item = true then data.item else []) = [] ∨
          messagePattern (if messagePattern data.item = true then data.item else []) = true := by
        split
        · rename_i hpattern
          exact Or.inr hpattern
        · exact Or.inl rfl
      split at h
      · cases h
      split at h
      · obtain ⟨rfl, rfl⟩ := MediaReply.messages.inj h
        refine ⟨hall ?_ _ _, fun _ => nofun⟩
        exact hitem
      · split at h
        · split at h
          · cases h
          · obtain ⟨rfl, rfl⟩ := MediaReply.messages.inj h
            refine ⟨hall ?_ _ _, ?_⟩
            · exact hitem
            · rintro _ ⟨⟩
              exact hitem
        · cases h

/-! ### Answers -/

variable (inboxSize : ℕ)

def MessageFits (chat : JsString) (textLimit : ℕ) (entry : ApiGroup) : Prop :=
  28 + messageTexts normalize (messageValue entry chat) textLimit ≤ budget inboxSize

def SendFits (entry : Entry) (restored : Bool) : Prop :=
  17 + sendTexts normalize (sendValue entry restored) ≤ budget inboxSize

def PrefsFits (settings : ReaderSettings) (preferences : ApiPreferences) : Prop :=
  9 + prefsTexts normalize (prefsValue settings preferences) ≤ budget inboxSize

/-- **What the inbox has room for**: only messages, sends and preferences may have too long texts. -/
def Reply.Fits : Reply → Prop
  | .bootstrap settings preferences _ entries =>
    PrefsFits normalize inboxSize settings preferences ∧
      ∀ entry ∈ entries, entry.state ≠ .sent → SendFits normalize inboxSize entry true
  | .history pageLimit textLimit chat items =>
    ∀ entry ∈ groups (items.filter fun message => messagePattern message.id),
      MessageFits normalize inboxSize chat (historyBounds inboxSize pageLimit textLimit).text entry
  | .events _ _ entries | .sends entries => ∀ entry ∈ entries, SendFits normalize inboxSize entry false
  | _ => True

theorem items_fit_iff (reply : Reply) :
    (∀ item ∈ reply.items normalize inboxSize,
      ((item.bytes (encode normalize)).length : ℤ) ≤ budget inboxSize) ↔
      reply.Fits normalize inboxSize := by
  have hbudget := le_budget inboxSize
  have hsend : ∀ (entry : Entry) (restored : Bool),
      (((sendRecord entry restored).bytes (encode normalize)).length : ℤ) ≤ budget inboxSize ↔
        SendFits normalize inboxSize entry restored := by
    intro entry restored
    unfold sendRecord SendFits
    rw [length_send, Nat.cast_add]
    exact Iff.rfl
  -- the parts of a text, for a budget with what is left for the record
  have hparts : ∀ (value : JsString) (limit : ℕ) (left : ℤ), 5 ≤ left → left ≤ 252 →
      ∀ part ∈ splitUtf8 (encode normalize value limit false).bytes (budget inboxSize - left).toNat,
        (((Item.text part : Item JsString).bytes (encode normalize)).length : ℤ) ≤ budget inboxSize := by
    intro value limit left hleft hroom part hpart
    have hlength := length_part_le (shortRuns_encode normalize value limit false)
      (by omega : 4 ≤ (budget inboxSize - left).toNat) part hpart
    rw [length_text]
    omega
  cases reply with
  | failed | done | media => exact iff_of_true (fun _ => nofun) trivial
  | bootstrap settings preferences accounts entries =>
    have hprefs : (((Item.prefs (prefsValue settings preferences)).bytes
        (encode normalize)).length : ℤ) ≤ budget inboxSize ↔
        PrefsFits normalize inboxSize settings preferences := by
      rw [length_prefs, Nat.cast_add]
      exact Iff.rfl
    have haccounts : ∀ account ∈ (accounts.filter fun account => accountPattern account.id).take 8,
        (((accountRecord preferences.defaultAccountId account).bytes
          (encode normalize)).length : ℤ) ≤ budget inboxSize := by
      intro account haccount
      have hid := (mem_filter.mp (mem_of_mem_take haccount)).2
      have := length_account_le normalize preferences.defaultAccountId account hid
      omega
    change (∀ item ∈ _ :: (List.map _ _ ++ List.map _ _), _) ↔ _ ∧ _
    rw [forall_mem_cons, forall_mem_append, forall_mem_map, forall_mem_map,
      hprefs, iff_true_intro haccounts, true_and]
    refine and_congr_right fun _ => forall_congr' fun entry => ?_
    rw [hsend, mem_filter, and_imp, decide_eq_true_eq]
  | chats pageLimit textLimit connection proxy unreadChats unreadMessages items =>
    refine iff_of_true ?_ trivial
    refine forall_mem_cons.mpr ⟨?_, forall_mem_map.mpr fun chat hchat => ?_⟩
    · change ((13 : ℕ) : ℤ) ≤ budget inboxSize
      omega
    · have hlimit : ((chatBounds inboxSize pageLimit textLimit).text : ℤ) ≤ budget inboxSize - 200 := by
        simp only [chatBounds, limits]
        omega
      refine (Int.ofNat_le.mpr (length_chat_le normalize ?_ (mem_filter.mp hchat).2 _)).trans ?_
      · rfl
      · push_cast
        omega
  | history pageLimit textLimit chat items =>
    refine forall_mem_map.trans (forall₂_congr fun entry _ => ?_)
    unfold messageRecord MessageFits
    rw [length_message, Nat.cast_add]
    exact Iff.rfl
  | fullText textLimit chat message =>
    refine iff_of_true (forall_mem_map.mpr ?_) trivial
    exact hparts _ _ 8 (by decide) (by decide)
  | events connection proxy changed =>
    refine forall_mem_cons.trans ?_
    have hstatus : ((5 : ℕ) : ℤ) ≤ budget inboxSize := by omega
    refine (and_iff_right hstatus).trans (forall_mem_map.trans ?_)
    exact forall₂_congr fun entry _ => hsend entry false
  | templates textLimit snapshot stale =>
    refine iff_of_true ?_ trivial
    refine forall_mem_cons.mpr ⟨?_, forall_mem_map.mpr ?_⟩
    · change ((9 : ℕ) : ℤ) ≤ budget inboxSize
      omega
    · rintro ⟨item, index⟩ _
      have := length_template_le normalize
        { index := ofLength index, length := ofLength (utf8Bytes item), preview := item }
        (textBound 96 48 textLimit)
      dsimp only
      omega
  | draft textLimit id text =>
    refine iff_of_true ?_ trivial
    refine forall_mem_cons.mpr ⟨?_, forall_mem_map.mpr ?_⟩
    · change ((12 : ℕ) : ℤ) ≤ budget inboxSize
      omega
    · exact hparts _ _ 16 (by decide) (by decide)
  | sends entries => exact forall_mem_map.trans (forall₂_congr fun entry _ => hsend entry false)

/-- **Exactly which answers are in chunks that the inbox has room for**: those with no message, no send
and no preferences of too long texts. All others always are. -/
theorem chunks_fit_iff (reply : Reply) :
    (∀ chunk ∈ reply.chunks normalize inboxSize, (chunk.length : ℤ) ≤ budget inboxSize) ↔
      reply.Fits normalize inboxSize := by
  have hbudget := le_budget inboxSize
  have hpack : (∀ chunk ∈ pack ((reply.items normalize inboxSize).map (Item.bytes (encode normalize)))
      (.finite (budget inboxSize)), (chunk.length : ℤ) ≤ budget inboxSize) ↔
        reply.Fits normalize inboxSize := by
    rw [pack_fits_iff (by omega), List.forall_mem_map]
    exact items_fit_iff normalize inboxSize reply
  have hnone : ∀ chunk ∈ ([[]] : List (List UInt8)), (chunk.length : ℤ) ≤ budget inboxSize := by
    intro chunk hchunk
    rw [List.mem_singleton.mp hchunk]
    exact Int.le_trans (by decide) hbudget
  cases reply with
  | failed => exact iff_of_true hnone trivial
  | media index offset tag cached answer inTime =>
    refine iff_of_true ?_ trivial
    -- what the cache has was put there by a request before
    have hcached : ∀ entry ∈ cached.map Subtype.val, Named entry.info := by
      intro entry hentry
      obtain ⟨⟨_, _, _, _, _, _, _, _, hput⟩, -, rfl⟩ := Option.map_eq_some_iff.mp hentry
      have hempty : ∀ entry ∈ (none : Option MediaEntry), Named entry.info := by rintro _ ⟨⟩
      exact (media_fits hempty hput).2 _ rfl
    rw [Reply.chunks]
    cases hmedia : media inboxSize index offset tag (cached.map Subtype.val) answer inTime with
    | messages payloads put => exact (media_fits hcached hmedia).1
    | failed => exact hnone
    | polls => exact List.forall_mem_nil _
  | _ => exact hpack

end Fits

/-! ### A message that is too long -/

def letters (count : ℕ) : JsString := List.replicate count 97

def longMessage : ApiMessage where
  id := List.replicate 19 49
  date := .finite 0
  authorSignature := letters 32
  content := { kind := name "text", text := letters 300, title := letters 48 }
  replyTo := some { messageId := List.replicate 19 49, senderName := letters 32, text := letters 64 }
  forwardFrom := some { name := letters 48, fallback := [], signature := [] }

/-- **A message of 538 bytes** for an inbox of 512, which leaves 416. -/
theorem message_too_long :
    ¬ ∀ chunk ∈ (Reply.history none none [] [longMessage]).chunks id 512,
      (chunk.length : ℤ) ≤ budget 512 := by
  have hlengths : ((Reply.history none none [] [longMessage]).chunks id 512).map List.length = [538] := by
    decide +kernel
  intro hall
  obtain ⟨chunk, hchunk, hlength⟩ : ∃ chunk ∈ (Reply.history none none [] [longMessage]).chunks id 512,
      chunk.length = 538 := by
    apply List.mem_map.mp
    rw [hlengths]
    exact List.mem_singleton_self 538
  have hbudget : budget 512 = 416 := rfl
  have := hall chunk hchunk
  omega

end Phone.Replies
