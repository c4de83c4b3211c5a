import TeleBezel.Link.CodecAgree
import TeleBezel.Phone.MediaChunks
import TeleBezel.Phone.Text
import TeleBezel.Watch.TextParts

/-!
# A text on its way to the watch

The phone encodes the text of a message, or of a draft, up to the limit of the request, splits it, and
sends the parts in chunks. The watch holds all of it as long as it makes room for it: for the text of a
message, if the phone keeps the limit of the request; for a draft, if the bytes that the phone counts
are no fewer than those that it sends, but for two.
-/

open List

namespace Texts

open Phone Phone.Codec Phone.Text Watch Watch.TextReader Watch.Composing Wire Transition Parts Phone.Text

/-! ### What the phone answers -/

/-- The items of `codec`, where the texts are those of the language. -/
abbrev TextItem := Item JsString

def budget (inboxSize : ℕ) : ℕ := (Phone.budget inboxSize).toNat

/-- A message of `respond`. -/
def reply (total : ℕ) (chunk : List UInt8 × ℕ) : TbResponse where
  outcome := .response
  result := tbResultOk
  payload := chunk.1
  index := chunk.2
  final := chunk.2 + 1 = total

/-- `respond`, of records. -/
def respond (records : List (List UInt8)) (budget : ℕ) : List TbResponse :=
  let chunks := pack records (ofLength budget)
  chunks.zipIdx.map (reply chunks.length)

section

variable (normalize : JsString → JsString)

/-- The text that `fullText` sends, up to the limit of the request. -/
def shownText (text : JsString) (textLimit : ℕ) : Encoded :=
  encode normalize text (max 16 (min 16384 textLimit)) false

/-- `send` of `fullText`. -/
def fullText (text : JsString) (textLimit inboxSize : ℕ) : List TbResponse :=
  let parts := splitUtf8 (shownText normalize text textLimit).bytes (budget inboxSize - 8)
  respond ((parts.map .text : List TextItem).map (Item.bytes (encode normalize)))
    (budget inboxSize)

/-- The text that `draft` sends, up to the limit of the request. -/
def shownDraft (text : JsString) (textLimit : ℕ) : Encoded :=
  encode normalize text (max 16 (min 8192 textLimit)) false

/-- What `draft` answers for a canonical text. -/
def draft (id : ℕ) (text : JsString) (textLimit inboxSize : ℕ) : List TbResponse :=
  let parts := splitUtf8 (shownDraft normalize text textLimit).bytes (budget inboxSize - 16)
  let header : TextItem := .draft {
    id := ofLength id
    bytes := ofLength (utf8Bytes text)
    units := ofLength text.length
    flags := ofLength (if maxTextUnits < text.length then 1 else 0) }
  respond ((header :: parts.map .text).map (Item.bytes (encode normalize))) (budget inboxSize)

end

/-! ### The records of a chunk -/

variable {normalize : JsString → JsString}

def written (normalize : JsString → JsString) (part : List UInt8) : List UInt8 :=
  Item.bytes (encode normalize) (.text part : TextItem)

theorem next_text {part : List UInt8} (h : part.length < 65534) (rest : List UInt8) :
    ∃ body, tbCodecNext (written normalize part ++ rest) = some (tbRecordText, body, rest) ∧
      tbCodecText body = some part := by
  have hbody : (Item.body (encode normalize) (.text part : TextItem)).length < 65536 := by
    have hlength : (u16 (ofLength part.length)).length = 2 := rfl
    show ((u16 (ofLength part.length) ++ part) ++ []).length < 65536
    rw [append_nil, length_append, hlength]
    omega
  obtain ⟨hframe, hframed⟩ := bytes_eq_frame (encode normalize) hbody
  refine ⟨_, (tbCodecNext_eq_some_iff _ _ _ _).2 ⟨hframed, ?_⟩, ?_⟩
  · exact congrArg (· ++ rest) hframe
  · have hdecode : tbCodecDecode (Item.body (encode normalize) (.text part : TextItem))
        (tbLayout tbRecordText) = some [.span part] :=
      (tbCodecDecode_eq_some_iff _ _ _).2 (body_eq_encode (encode normalize) hbody)
    rw [tbCodecText, hdecode]

theorem next_draft (value : Phone.Codec.Draft) (rest : List UInt8) :
    ∃ body, tbCodecNext (Item.bytes (encode normalize) (.draft value : TextItem) ++ rest) =
        some (tbRecordDraft, body, rest) ∧
      tbCodecDraft body = some ⟨value.id.clamped 0xFFFFFFFF, value.bytes.clamped 0xFFFF,
        value.units.clamped 0xFFFF, value.flags.masked⟩ := by
  have hbody : (Item.body (encode normalize) (.draft value : TextItem)).length < 65536 := by
    show 9 < 65536
    omega
  obtain ⟨hframe, hframed⟩ := bytes_eq_frame (encode normalize) hbody
  refine ⟨_, (tbCodecNext_eq_some_iff _ _ _ _).2 ⟨hframed, congrArg (· ++ rest) hframe⟩, ?_⟩
  have hdecode : tbCodecDecode (Item.body (encode normalize) (.draft value : TextItem))
      (tbLayout tbRecordDraft) =
      some [longValue value.id, wordValue value.bytes, wordValue value.units, byteValue value.flags] :=
    (tbCodecDecode_eq_some_iff _ _ _).2 (body_eq_encode (encode normalize) hbody)
  rw [tbCodecDraft, hdecode]
  rfl

theorem length_written_pos (part : List UInt8) : 1 ≤ (written normalize part).length := by
  rw [written, Item.bytes, Codec.record, append_assoc, length_append]
  exact Nat.le_add_right 1 _

theorem length_le_flatMap (parts : List (List UInt8)) :
    parts.length ≤ (parts.flatMap (written normalize)).length := by
  induction parts with
  | nil => exact Nat.le_refl 0
  | cons part parts ih =>
    have hpos := @length_written_pos normalize part
    rw [flatMap_cons, length_append, length_cons]
    omega

/-! ### The text of a message -/

section Reading

variable {env : TextReader.Env} {reader : TbMessageText} {held : List UInt8}

section

variable (hgrows : ∀ index, env.realloc index = true) {parts : List (List UInt8)} (hparts : ∀ part
  ∈ parts, part.length < 65534) (htext : reader.text = some held) (hfit : held.length +
  parts.flatten.length ≤ reader.limit)
include hgrows parts hparts htext hfit

theorem append_whole {fuel index : ℕ}
    (hfuel : parts.length ≤ fuel) :
    ∃ capacity, reader.appendLoop env fuel index (parts.flatMap (written normalize)) =
      ({ reader with text := some (held ++ parts.flatten), capacity }, true) := by
  induction parts generalizing fuel index reader held with
  | nil =>
    refine ⟨reader.capacity, ?_⟩
    have hsame : { reader with text := some (held ++ []) } = reader := by
      rw [append_nil, ← htext]
    rw [flatten_nil, hsame, flatMap_nil]
    cases fuel with
    | zero => rfl
    | succ _ => rfl
  | cons part parts ih =>
    cases fuel with
    | zero => cases hfuel
    | succ fuel =>
      obtain ⟨body, hnext, hpart⟩ := @next_text normalize part (hparts part mem_cons_self)
        (parts.flatMap (written normalize))
      rw [flatten_cons, length_append] at hfit
      have hlength : reader.length = held.length := by
        rw [length_eq, TbMessageText.held, htext]
        rfl
      have hwhole : reader.fitting part = part.length := by
        rw [fitting_eq, cutTo, if_pos (by omega)]
      have hcut : reader.cutting part = reader := by
        rw [TbMessageText.cutting, hwhole, if_neg (Nat.lt_irrefl _)]
      rw [flatMap_cons, appendLoop_text hnext hpart, hcut]
      have hreserve : ∃ capacity, reader.reserve (env.realloc index)
          (reader.length + reader.fitting part) = some { reader with capacity } := by
        rw [TbMessageText.reserve, hgrows]
        split
        · exact ⟨reader.capacity, rfl⟩
        · exact ⟨_, if_pos rfl⟩
      obtain ⟨capacity, hreserve⟩ := hreserve
      rw [hreserve]
      obtain ⟨capacity', hrest⟩ := @ih
        (TbMessageText.taking { reader with capacity } part (reader.fitting part))
        (held ++ part) (fun part' hpart' => hparts part' (mem_cons_of_mem _ hpart'))
        (by
          show reader.text.map _ = _
          rw [htext, hwhole, take_length]
          rfl)
        (by
          show (held ++ part).length + parts.flatten.length ≤ reader.limit
          rw [length_append]
          omega) fuel (index + 1) (Nat.le_of_succ_le_succ hfuel)
      refine ⟨capacity', hrest.trans ?_⟩
      rw [append_assoc, flatten_cons]
      rfl

theorem completed_whole (index total flags : ℕ) :
    let after := reader.completed env reader.pending
      (reply total (parts.flatMap (written normalize), index)) flags
    after.text = some (held ++ parts.flatten) ∧ after.limit = reader.limit ∧
      (index + 1 ≠ total → after.pending = reader.pending) := by
  obtain ⟨capacity, hloop⟩ := @append_whole normalize env reader held hgrows parts hparts htext hfit
    (parts.flatMap (written normalize)).length 0 (length_le_flatMap parts)
  have happend : reader.append env (parts.flatMap (written normalize)) =
      ({ reader with text := some (held ++ parts.flatten), capacity }, true) := hloop
  rcases @completed_cases env reader (reply total (parts.flatMap (written normalize), index)) flags
      nofun
    with ⟨-, truncated, pending, loading, hcompleted, -, hpending⟩ | ⟨hrefused, -⟩
  · change reader.completed env _ _ flags = { (reader.append env
      (parts.flatMap (written normalize))).1 with truncated, pending, loading } at hcompleted
    rw [happend] at hcompleted
    intro after
    have hafter : after = _ := hcompleted
    rw [hafter]
    refine ⟨rfl, rfl, fun hmore => ?_⟩
    have hsame := hpending (decide_eq_false hmore)
    change pending = (reader.append env (parts.flatMap (written normalize))).1.pending at hsame
    rw [happend] at hsame
    exact hsame
  · refine absurd ⟨rfl, rfl, ?_⟩ hrefused
    exact congrArg Prod.snd happend

end

theorem heard_whole (hgrows : ∀ index, env.realloc index = true) {groups : List (List (List UInt8))}
    (hparts : ∀ group ∈ groups, ∀ part ∈ group, part.length < 65534) (htext : reader.text = some held)
    {sequence : ℕ} (hpending : groups ≠ [] → reader.pending = sequence)
    (hfit : held.length + groups.flatten.flatten.length ≤ reader.limit) {index total : ℕ}
    (htotal : index + groups.length = total) (flags : ℕ) :
    ((((groups.map (·.flatMap (written normalize))).zipIdx index).map (reply total)).foldl
      (fun reader response => reader.completed env sequence response flags) reader).held =
      held ++ groups.flatten.flatten := by
  induction groups generalizing reader held index with
  | nil =>
    show reader.held = _
    rw [TbMessageText.held, htext, flatten_nil, flatten_nil, append_nil]
    rfl
  | cons group groups ih =>
    rw [flatten_cons, flatten_append, length_append] at hfit
    rw [map_cons, zipIdx_cons, map_cons, foldl_cons,
      ← hpending (cons_ne_nil _ _)]
    obtain ⟨htext', hlimit, hpending'⟩ := @completed_whole normalize env reader held hgrows group
      (hparts group mem_cons_self) htext (by omega) index total flags
    rw [length_cons] at htotal
    have hrest := @ih _ _ (fun group' hgroup' => hparts group' (mem_cons_of_mem _ hgroup')) htext'
      (fun hmore => ?_) ?_ (index + 1) (by omega)
    · rw [← hpending (cons_ne_nil _ _)] at hrest
      rw [hrest, flatten_cons, flatten_append, append_assoc]
    · have hlength := length_pos_of_ne_nil hmore
      exact (hpending' (by omega)).trans (hpending (cons_ne_nil _ _))
    · rw [hlimit, length_append]
      omega

theorem heard_le (hle : reader.length ≤ reader.limit) (sequence flags : ℕ)
    (responses : List TbResponse) :
    (responses.foldl (fun reader response => reader.completed env sequence response flags)
      reader).length ≤ reader.limit := by
  induction responses generalizing reader with
  | nil => exact hle
  | cons response responses ih =>
    obtain ⟨hlimit, hle'⟩ := @completed_le env reader hle sequence response flags
    rw [foldl_cons, ← hlimit]
    apply ih
    rw [hlimit]
    exact hle'

end Reading

theorem respond_text (parts : List (List UInt8)) (budget : ℕ) :
    ∃ groups : List (List (List UInt8)), groups.flatten = parts ∧
      respond ((parts.map .text : List TextItem).map (Item.bytes (encode normalize)))
        budget = ((groups.map (·.flatMap (written normalize))).zipIdx.map (reply groups.length)) := by
  have hnonempty : ∀ part ∈ parts, written normalize part ≠ [] := by
    intro part _ hempty
    have hpos := @length_written_pos normalize part
    rw [hempty] at hpos
    exact absurd hpos (by decide)
  obtain ⟨groups, hgroups, hpack⟩ := pack_groups (ofLength budget) hnonempty
  refine ⟨groups, hgroups, ?_⟩
  have hchunks : pack ((parts.map .text : List TextItem).map
      (Item.bytes (encode normalize))) (ofLength budget) =
      groups.map (·.flatMap (written normalize)) := by
    rw [map_map]
    exact hpack
  rw [respond, hchunks, length_map]

/-- What the reader makes of the answer for a text, when it is opened and every allocation succeeds. -/
def reading (normalize : JsString → JsString) (reader : TbMessageText) (env : TextReader.Env)
    (account chat message : CString) (text : JsString) (inboxSize flags : ℕ) : TbMessageText :=
  (fullText normalize text reader.limit inboxSize).foldl
    (fun reader response => reader.completed env env.submitted.sequence response flags)
    (reader.open env account chat message)

/-- **The reader holds what the phone has encoded** exactly when that is within its limit. -/
theorem held_reading_iff (reader : TbMessageText) {env : TextReader.Env}
    (hsubmitted : env.submitted.sequence ≠ 0) (hmalloc : env.malloc = true)
    (hgrows : ∀ index, env.realloc index = true) (account chat message : CString) (text : JsString)
    (inboxSize flags : ℕ) :
    (reading normalize reader env account chat message text inboxSize flags).held =
        (shownText normalize text reader.limit).bytes ↔
      (shownText normalize text reader.limit).bytes.length ≤ reader.limit := by
  have hopened : (reader.open env account chat message).text = some [] ∧
      (reader.open env account chat message).limit = reader.limit ∧
      (reader.open env account chat message).pending = env.submitted.sequence := by
    rw [TbMessageText.open, if_pos hmalloc, TbMessageText.submit]
    rw [if_neg hsubmitted]
    exact ⟨rfl, rfl, rfl⟩
  obtain ⟨htext, hlimit, hpending⟩ := hopened
  constructor
  · intro hheld
    have hopen : (reader.open env account chat message).length ≤
        (reader.open env account chat message).limit := by
      rw [length_eq, TbMessageText.held, htext]
      exact Nat.zero_le _
    have hle : (reading normalize reader env account chat message text inboxSize flags).length ≤
        (reader.open env account chat message).limit := heard_le hopen _ _ _
    rwa [length_eq, hheld, hlimit] at hle
  · intro hfit
    obtain ⟨groups, hgroups, hrespond⟩ := @respond_text normalize (splitUtf8
      (shownText normalize text reader.limit).bytes (Texts.budget inboxSize - 8))
      (Texts.budget inboxSize)
    have hflat : groups.flatten.flatten = (shownText normalize text reader.limit).bytes := by
      rw [hgroups, flatten_splitUtf8]
    have hshort : (shownText normalize text reader.limit).bytes.length ≤ 16384 :=
      (length_encode_le normalize text _ false).trans (by omega)
    have hparts : ∀ group ∈ groups, ∀ part ∈ group, part.length < 65534 := by
      intro group hgroup part hpart
      have hmem : part ∈ groups.flatten := mem_flatten_of_mem hgroup hpart
      rw [hgroups] at hmem
      have hlength := length_le_of_mem_splitUtf8 hmem
      omega
    rw [reading, fullText]
    rw [hrespond, heard_whole hgrows hparts htext (fun _ => hpending) ?_ (Nat.zero_add _) flags,
      nil_append, hflat]
    rw [hflat, hlimit]
    show 0 + _ ≤ _
    omega

/-! ### The text of a draft -/

section Drafting

variable {env : Composing.Env} {compose : TbCompose}

/-- What `draft_done` makes of an item of the answer. -/
def heardItem (compose : TbCompose) : TextItem → TbCompose
  | .draft value => compose.headed ⟨value.id.clamped 0xFFFFFFFF, value.bytes.clamped 0xFFFF,
      value.units.clamped 0xFFFF, value.flags.masked⟩ true
  | .text part =>
    match compose.text with
    | none => compose
    | some text =>
      let taken := text ++ part.take (compose.fitting text part)
      { compose with text := some (taken.take (taken.length % 65536)) }
  | _ => compose

def Answered : TextItem → Prop
  | .draft _ => True
  | .text part => part.length < 65534
  | _ => False

theorem draftRecord_item (hcalloc : ∀ index, env.calloc index = true) {item : TextItem}
    (hitem : Answered item) (rest : List UInt8) (index : ℕ) :
    ∃ type body, tbCodecNext (item.bytes (encode normalize) ++ rest) =
        some (type, body, rest) ∧
      compose.draftRecord env index type body = heardItem compose item := by
  cases item with
  | draft value =>
    obtain ⟨body, hnext, hrecord⟩ := @next_draft normalize value rest
    refine ⟨_, body, hnext, ?_⟩
    rw [TbCompose.draftRecord, if_pos rfl, hrecord, hcalloc]
    rfl
  | text part =>
    obtain ⟨body, hnext, hpart⟩ := @next_text normalize part hitem rest
    refine ⟨_, body, hnext, ?_⟩
    rw [TbCompose.draftRecord, if_neg (by decide), if_pos rfl, hpart, heardItem]
    cases compose.text with
    | none => rfl
    | some text => rfl
  | _ => cases hitem

theorem draftLoop_items (hcalloc : ∀ index, env.calloc index = true) {items : List TextItem}
    (hitems : ∀ item ∈ items, Answered item) {fuel : ℕ} (hfuel : items.length ≤ fuel) (index : ℕ) :
    compose.draftLoop env fuel index (items.flatMap (Item.bytes (encode normalize))) =
      items.foldl heardItem compose := by
  induction items generalizing compose fuel index with
  | nil =>
    cases fuel with
    | zero => rfl
    | succ _ => rfl
  | cons item items ih =>
    cases fuel with
    | zero => cases hfuel
    | succ fuel =>
      obtain ⟨type, body, hnext, hrecord⟩ := @draftRecord_item normalize env compose hcalloc item
        (hitems item mem_cons_self)
        (items.flatMap (Item.bytes (encode normalize))) index
      rw [flatMap_cons, TbCompose.draftLoop, hnext]
      dsimp only
      rw [hrecord, foldl_cons]
      exact ih (fun item hitem => hitems item (mem_cons_of_mem _ hitem))
        (Nat.le_of_succ_le_succ hfuel) _

theorem length_items_le (items : List TextItem) :
    items.length ≤ (items.flatMap (Item.bytes (encode normalize))).length := by
  induction items with
  | nil => exact Nat.le_refl 0
  | cons item items ih =>
    have hpos : 1 ≤ (item.bytes (encode normalize)).length := by
      rw [Item.bytes, Codec.record, append_assoc, length_append]
      exact Nat.le_add_right 1 _
    rw [flatMap_cons, length_append, length_cons]
    omega

theorem draftPending_heardItem (item : TextItem) :
    (heardItem compose item).draftPending = compose.draftPending := by
  cases item with
  | text part =>
    rw [heardItem]
    cases compose.text with
    | none => rfl
    | some _ => rfl
  | _ => rfl

theorem draftPending_foldl (items : List TextItem) :
    (items.foldl heardItem compose).draftPending = compose.draftPending := by
  induction items generalizing compose with
  | nil => rfl
  | cons item items ih => exact ih.trans (draftPending_heardItem item)

theorem heard_items (hcalloc : ∀ index, env.calloc index = true) {groups : List (List TextItem)}
    (hitems : ∀ group ∈ groups, ∀ item ∈ group, Answered item) {sequence : ℕ}
    (hpending : groups ≠ [] → compose.draftPending = sequence) {index total : ℕ}
    (htotal : index + groups.length = total) :
    ((((groups.map (·.flatMap (Item.bytes (encode normalize)))).zipIdx index).map
      (reply total)).foldl (fun compose response => compose.draftDone env sequence response)
      compose).text = (groups.flatten.foldl heardItem compose).text := by
  induction groups generalizing compose index with
  | nil => rfl
  | cons group groups ih =>
    have hloop : compose.draftLoop env
        (group.flatMap (Item.bytes (encode normalize))).length 0
        (group.flatMap (Item.bytes (encode normalize))) = group.foldl heardItem compose :=
      draftLoop_items hcalloc (hitems group mem_cons_self) (length_items_le group) 0
    have hthis := hpending (cons_ne_nil _ _)
    rw [length_cons] at htotal
    rw [map_cons, zipIdx_cons, map_cons, foldl_cons, flatten_cons,
      foldl_append]
    cases groups with
    | nil =>
      rw [← hthis]
      rcases @draftDone_cases env compose (reply total
          (group.flatMap (Item.bytes (encode normalize)), index)) nofun with
        ⟨-, htext⟩ | ⟨hrefused, -⟩
      · refine htext.trans ?_
        exact congrArg TbCompose.text hloop
      · exact absurd ⟨rfl, rfl⟩ hrefused
    | cons next groups =>
      have hmore : (reply total
          (group.flatMap (Item.bytes (encode normalize)), index)).final = false := by
        apply decide_eq_false
        rw [length_cons] at htotal
        omega
      have hdone : compose.draftDone env sequence (reply total
          (group.flatMap (Item.bytes (encode normalize)), index)) =
          group.foldl heardItem compose := by
        rw [TbCompose.draftDone, if_neg (by simp [reply, hthis]), if_neg (by simp [reply])]
        rw [hmore, if_neg Bool.false_ne_true]
        exact hloop
      rw [hdone]
      exact ih (fun group hgroup => hitems group (mem_cons_of_mem _ hgroup))
        (fun _ => (draftPending_foldl group).trans hthis) (by omega)

theorem parts_foldl {parts : List (List UInt8)} {text : List UInt8} (htext : compose.text = some text)
    (hle : text.length ≤ compose.textBytes compose.draftBytes + 2) :
    ∃ text', ((parts.map .text : List TextItem).foldl heardItem compose).text = some text' ∧
      text'.length ≤ compose.textBytes compose.draftBytes + 2 ∧
      (text.length + parts.flatten.length ≤ compose.textBytes compose.draftBytes + 2 →
        text.length + parts.flatten.length < 65536 → text' = text ++ parts.flatten) := by
  induction parts generalizing compose text with
  | nil => exact ⟨text, htext, hle, fun _ _ => (append_nil text).symm⟩
  | cons part parts ih =>
    have hfit := cutTo_le (compose.textBytes compose.draftBytes + 3 - text.length - 1) part
    rw [← tbUtf8Fit_eq] at hfit
    change compose.fitting text part ≤ _ ∧ compose.fitting text part ≤ _ at hfit
    have hnext : heardItem compose (.text part) = { compose with
        text := some ((text ++ part.take (compose.fitting text part)).take
          ((text ++ part.take (compose.fitting text part)).length % 65536)) } := by
      rw [heardItem, htext]
    obtain ⟨text', htext', hle', hwhole⟩ := @ih { compose with
        text := some ((text ++ part.take (compose.fitting text part)).take
          ((text ++ part.take (compose.fitting text part)).length % 65536)) } _ rfl (by
      show List.length (List.take _ _) ≤ compose.textBytes compose.draftBytes + 2
      rw [length_take, length_append, length_take]
      omega)
    refine ⟨text', ?_, hle', fun hroom hcount => ?_⟩
    · rw [map_cons, foldl_cons, hnext]
      exact htext'
    · rw [flatten_cons, length_append] at hroom hcount
      have hall : compose.fitting text part = part.length := by
        rw [TbCompose.fitting, tbUtf8Fit_eq, cutTo, if_pos (by omega)]
      have htaken : (text ++ part.take (compose.fitting text part)).take
          ((text ++ part.take (compose.fitting text part)).length % 65536) = text ++ part := by
        rw [hall, take_length, length_append, Nat.mod_eq_of_lt (by omega),
          ← length_append, take_length]
      rw [htaken] at hwhole
      rw [hwhole ?_ ?_, flatten_cons, append_assoc]
      · show (text ++ part).length + _ ≤ compose.textBytes compose.draftBytes + 2
        rw [length_append]
        omega
      · rw [length_append]
        omega

theorem requestDraft_spec (compose : TbCompose) (hsubmitted : env.submitted.sequence ≠ 0) :
    (compose.requestDraft env).draftPending = env.submitted.sequence ∧
      (compose.requestDraft env).config = compose.config := by
  have hconfig : compose.cancelDraft.discardCurrent.config = compose.config := by
    rw [TbCompose.discardCurrent]
    split
    · rfl
    · rfl
  rw [TbCompose.requestDraft]
  rw [if_neg hsubmitted]
  exact ⟨rfl, hconfig⟩

theorem items_iff (compose : TbCompose) (header : Phone.Codec.Draft) {parts : List (List UInt8)}
    (hshort : parts.flatten.length < 65536) :
    (((Item.draft header :: parts.map .text : List TextItem)).foldl heardItem compose).held =
        parts.flatten ↔
      parts.flatten.length ≤ min (header.bytes.clamped 0xFFFF) compose.config.textLimit + 2 := by
  have hroom : (heardItem compose (.draft header)).textBytes
      (heardItem compose (.draft header)).draftBytes =
      min (header.bytes.clamped 0xFFFF) compose.config.textLimit := by
    show (if header.bytes.clamped 0xFFFF < compose.config.textLimit then
      header.bytes.clamped 0xFFFF else compose.config.textLimit) = _
    split <;> omega
  obtain ⟨held, hheld, hle, hwhole⟩ := @parts_foldl (heardItem compose (.draft header)) parts [] rfl
    (Nat.zero_le _)
  rw [hroom] at hle hwhole
  rw [length_nil, Nat.zero_add, nil_append] at hwhole
  rw [foldl_cons, TbCompose.held, hheld, Option.getD_some]
  constructor
  · intro hsame
    rwa [hsame] at hle
  · exact fun hfit => hwhole hfit hshort

theorem respond_items (hcalloc : ∀ index, env.calloc index = true) {items : List TextItem}
    (hitems : ∀ item ∈ items, Answered item) {sequence : ℕ}
    (hpending : compose.draftPending = sequence) (budget : ℕ) :
    ((respond (items.map (Item.bytes (encode normalize))) budget).foldl
      (fun compose response => compose.draftDone env sequence response) compose).held =
      (items.foldl heardItem compose).held := by
  have hnonempty : ∀ item ∈ items, item.bytes (encode normalize) ≠ [] := by
    intro item _
    rw [Item.bytes, Codec.record, append_assoc]
    exact cons_ne_nil _ _
  obtain ⟨groups, rfl, hpack⟩ := pack_groups (ofLength budget) hnonempty
  have hheard := @heard_items normalize env compose hcalloc groups (fun group hgroup item hitem =>
    hitems item (mem_flatten_of_mem hgroup hitem)) sequence (fun _ => hpending) 0 groups.length
    (Nat.zero_add groups.length)
  rw [respond, hpack, length_map, TbCompose.held, hheard]
  rfl

/-- What the composition makes of the answer for a draft that it asks for, when every allocation
succeeds. -/
def drafting (normalize : JsString → JsString) (compose : TbCompose) (env : Composing.Env) (id : ℕ)
    (text : JsString) (inboxSize : ℕ) : TbCompose :=
  (draft normalize id text compose.config.textLimit inboxSize).foldl
    (fun compose response => compose.draftDone env env.submitted.sequence response)
    (compose.requestDraft env)

/-- **The composition holds what the phone has encoded** exactly when that is no longer than what it
makes room for. -/
theorem held_drafting_iff (compose : TbCompose) (hsubmitted : env.submitted.sequence ≠ 0)
    (hcalloc : ∀ index, env.calloc index = true) (id : ℕ) (text : JsString) (inboxSize : ℕ) :
    (drafting normalize compose env id text inboxSize).held =
        (shownDraft normalize text compose.config.textLimit).bytes ↔
      (shownDraft normalize text compose.config.textLimit).bytes.length ≤
        min (utf8Bytes text) compose.config.textLimit + 2 := by
  have hshort : (shownDraft normalize text compose.config.textLimit).bytes.length ≤ 8192 :=
    (length_encode_le normalize text _ false).trans (by omega)
  obtain ⟨hpending, hconfig⟩ := requestDraft_spec compose hsubmitted
  rw [drafting, draft]
  generalize (shownDraft normalize text compose.config.textLimit).bytes = bytes at hshort ⊢
  rw [respond_items hcalloc ?_ hpending]
  · have hflat : (splitUtf8 bytes (Texts.budget inboxSize - 16)).flatten = bytes :=
      flatten_splitUtf8 _ _
    have hiff := items_iff (compose.requestDraft env) {
      id := ofLength id
      bytes := ofLength (utf8Bytes text)
      units := ofLength text.length
      flags := ofLength (if maxTextUnits < text.length then 1 else 0) }
      (by rw [hflat]; omega : (splitUtf8 bytes (Texts.budget inboxSize - 16)).flatten.length < 65536)
    rw [hflat, hconfig, clamped_ofLength_min] at hiff
    rw [hiff]
    omega
  · intro item hitem
    rw [mem_cons, mem_map] at hitem
    rcases hitem with rfl | ⟨part, hpart, rfl⟩
    · trivial
    · have hlength := length_le_of_mem_splitUtf8 hpart
      show part.length < 65534
      omega

end Drafting

/-! ### Every run -/

/-- **The text that the watch holds is a piece of what was sent.** In every run in which nothing is
taken after a part that was not taken whole, what is held is a piece of what has been received; and
of what the phone answers, all is held if there is room for it. -/
theorem pieces_of_run (limit : ℕ) (events : List (TextReader.Event × TextReader.Env))
    (config : TbComposeConfig) (drafts : List (Composing.Event × Composing.Env)) :
    (check Reading.step Reading.Meets ⟨.init limit, []⟩ events = true →
      ∀ before, before <+: events → (before.foldl Reading.step ⟨.init limit, []⟩).Shown) ∧
    (check Drafting.step Drafting.Meets ⟨{ config }, []⟩ drafts = true →
      ∀ before, before <+: drafts → (before.foldl Drafting.step ⟨{ config }, []⟩).Shown) ∧
    (∀ (normalize : JsString → JsString) (reader : TbMessageText) (env : TextReader.Env)
        (account chat message : CString) (text : JsString) (inboxSize flags : ℕ),
      env.submitted.sequence ≠ 0 → env.malloc = true → (∀ index, env.realloc index = true) →
      ((reading normalize reader env account chat message text inboxSize flags).held =
          (shownText normalize text reader.limit).bytes ↔
        (shownText normalize text reader.limit).bytes.length ≤ reader.limit)) ∧
    (∀ (normalize : JsString → JsString) (compose : TbCompose) (env : Composing.Env) (id : ℕ)
        (text : JsString) (inboxSize : ℕ),
      env.submitted.sequence ≠ 0 → (∀ index, env.calloc index = true) →
      ((drafting normalize compose env id text inboxSize).held =
          (shownDraft normalize text compose.config.textLimit).bytes ↔
        (shownDraft normalize text compose.config.textLimit).bytes.length ≤
          min (utf8Bytes text) compose.config.textLimit + 2)) := by
  refine ⟨fun hcheck before hbefore => ?_, fun hcheck before hbefore => ?_, ?_, ?_⟩
  · have hsound := always_of_check Reading.step (fun s event _ h hmeets =>
      TextReader.shown_step (s := s) h hmeets) (sound_init limit) hcheck before hbefore
    exact hsound.shown
  · have hstart : Drafting.Shown ⟨{ config }, []⟩ := Shows.none []
    exact always_of_check Drafting.step (fun s event _ h hmeets =>
      Composing.shown_step (s := s) h hmeets) hstart hcheck before hbefore
  · intro normalize reader env account chat message text inboxSize flags hsubmitted hmalloc hgrows
    exact held_reading_iff reader hsubmitted hmalloc hgrows account chat message text inboxSize flags
  · intro normalize compose env id text inboxSize hsubmitted hcalloc
    exact held_drafting_iff compose hsubmitted hcalloc id text inboxSize

def wellEnv : TextReader.Env := ⟨⟨1, .timeout⟩, true, fun _ => true⟩

def chunk (index : ℕ) (final : Bool) (part : List UInt8) : TextReader.Event × TextReader.Env :=
  (.response 1 { outcome := .response, payload := written id part, index, final } 0, wellEnv)

def withinLimit : List (TextReader.Event × TextReader.Env) :=
  [(.open [49] [50] [51], wellEnv), chunk 0 false [97, 98], chunk 1 true [99]]

/-- It is held. -/
theorem pieces_of_run_withinLimit :
    check Reading.step Reading.Meets ⟨.init 16, []⟩ withinLimit = true ∧
      (withinLimit.foldl Reading.step ⟨.init 16, []⟩).Shown := by
  have hcheck : check Reading.step Reading.Meets ⟨.init 16, []⟩ withinLimit = true := by
    decide +kernel
  exact ⟨hcheck, (pieces_of_run 16 withinLimit {} []).1 hcheck withinLimit (List.prefix_refl _)⟩

def cutCharacter : List (TextReader.Event × TextReader.Env) :=
  [(.open [49] [50] [51], wellEnv),
    chunk 0 false (List.replicate 15 97 ++ [0xF0, 0x9F, 0x98, 0x80]), chunk 1 true [98]]

/-- What the reader holds is no piece of what it has received. -/
theorem spliced_after_cut :
    ¬ (cutCharacter.foldl Reading.step ⟨.init 16, []⟩).Shown := by
  intro h
  have hpiece := h.1.piece
  revert hpiece
  decide +kernel

end Texts
