import TeleBezel.Lib.Fields
import TeleBezel.Lib.Utf8
import TeleBezel.Watch.Codec

/-!
# Formatted text

What the watch shows of a message is put together by the `snprintf` of `app/src/c/format.c`, some of it in a
buffer of its own before; and `tb_notify_post` of `notify.c` keeps a title and a body in arrays. `snprintf`
cuts at a byte, also within a character, where `tb_utf8_fit` goes back to one.
-/

open List

namespace Watch

open Parts

/-- Whole characters and no NUL. -/
structure Utf8String (bytes : CString) : Prop where
  characters : Characters bytes
  ended : 0 ∉ bytes

abbrev Localised := {bytes : CString // Utf8String bytes}

/-- What `TbStrings` has of kinds, of actions and of media; the first two begin with `kind_photo` and
`action_members_added`. -/
structure TbStrings where
  kinds : ℕ → Localised
  kindUnsupported : Localised
  actions : ℕ → Localised
  kindService : Localised
  mediaDisappearing : Localised
  mediaSpoiler : Localised
  mediaAlbum : Localised

/-- `TB_KIND_TEXT` and the kinds that are told apart. -/
def tbKindText : ℕ := 0

@[inherit_doc tbKindText] def tbKindPhoto : ℕ := 1

@[inherit_doc tbKindText] def tbKindVideo : ℕ := 2

@[inherit_doc tbKindText] def tbKindVoiceNote : ℕ := 3

@[inherit_doc tbKindText] def tbKindVideoNote : ℕ := 4

@[inherit_doc tbKindText] def tbKindAudio : ℕ := 7

@[inherit_doc tbKindText] def tbKindCall : ℕ := 14

@[inherit_doc tbKindText] def tbKindPaidMedia : ℕ := 18

@[inherit_doc tbKindText] def tbKindService : ℕ := 19

@[inherit_doc tbKindText] def tbKindUnsupported : ℕ := 20

@[inherit_doc tbKindText] def tbKindNone : ℕ := 21

/-- `TB_ACTION_MEMBERS_ADDED`, `TB_ACTION_TOPIC_CREATED` and `TB_ACTION_CUSTOM`. -/
def tbActionMembersAdded : ℕ := 1

@[inherit_doc tbActionMembersAdded] def tbActionTopicCreated : ℕ := 13

@[inherit_doc tbActionMembersAdded] def tbActionCustom : ℕ := 14

/-! ### `format.c` -/

def literal (text : String) : CString := text.toList.flatMap String.utf8EncodeChar

/-- A number as `%d` prints it. -/
def digits (n : ℕ) : CString := (Nat.toDigits 10 n).flatMap String.utf8EncodeChar

/-- `snprintf` of a text: the bytes that are written, the terminator included. -/
def snprintf (size : ℕ) (text : CString) : List UInt8 :=
  if size = 0 then [] else strncpy size text ++ [0]

def detailSize : ℕ := 64

section Format

variable (strings : TbStrings) (kind action : ℕ)

def tbKindLabel : CString :=
  if tbKindPhoto ≤ kind ∧ kind ≤ tbKindUnsupported then strings.kinds (kind - tbKindPhoto)
  else strings.kindUnsupported

def tbActionLabel : CString :=
  if tbActionMembersAdded ≤ action ∧ action ≤ tbActionTopicCreated then
    strings.actions (action - tbActionMembersAdded)
  else strings.kindService

def tbFormatDuration (size seconds : ℕ) : List UInt8 :=
  snprintf size (digits (seconds / 60) ++ literal ":" ++
    (if seconds % 60 < 10 then literal "0" else []) ++ digits (seconds % 60))

def hasDuration : Bool :=
  kind ∈ [tbKindVoiceNote, tbKindVideoNote, tbKindAudio, tbKindVideo, tbKindCall]

/-- `tb_format_content`. A pointer may be null. -/
def tbFormatContent (size duration : ℕ) (extra text : Option CString) : List UInt8 :=
  if size = 0 then []
  else
    let extra := extra.getD []
    let text := text.getD []
    if kind = tbKindText ∨ kind = tbKindNone then snprintf size text
    else if kind = tbKindService then
      if action = tbActionCustom ∧ text ≠ [] then snprintf size text
      else if extra ≠ [] then snprintf size (tbActionLabel strings action ++ literal ": " ++ extra)
      else snprintf size (tbActionLabel strings action)
    else
      let detail :=
        if extra ≠ [] then cString (snprintf detailSize (literal " " ++ extra))
        else if hasDuration kind ∧ 0 < duration then
          cString (snprintf detailSize (literal " " ++ cString (tbFormatDuration 16 duration)))
        else []
      if text ≠ [] then
        snprintf size (literal "[" ++ tbKindLabel strings kind ++ detail ++ literal "] " ++ text)
      else snprintf size (literal "[" ++ tbKindLabel strings kind ++ detail ++ literal "]")

/-- The mark of `tb_format_message`. -/
def markOf (media : ℕ) : CString :=
  if media &&& tbMediaFlagRestricted ≠ 0 ∧ kind ≠ tbKindPaidMedia then strings.mediaDisappearing
  else if media &&& tbMediaFlagSpoiler ≠ 0 then strings.mediaSpoiler
  else []

def tbFormatMessage (size duration : ℕ) (extra text : Option CString) (media count : ℕ) : List UInt8 :=
  let body := text.getD []
  let mark := markOf strings kind media
  if media &&& tbMediaFlagAlbum ≠ 0 ∧ 1 < count then
    let name := if kind = tbKindPaidMedia then tbKindLabel strings kind else strings.mediaAlbum.1
    let detail := cString (snprintf detailSize (name ++ literal " " ++ digits count ++
      (if mark ≠ [] then literal " · " else []) ++ mark))
    if body ≠ [] then snprintf size (literal "[" ++ detail ++ literal "] " ++ body)
    else snprintf size (literal "[" ++ detail ++ literal "]")
  else if mark ≠ [] then
    let detail := cString (snprintf detailSize (extra.getD [] ++
      (if extra.getD [] ≠ [] then literal " " else []) ++ literal "· " ++ mark))
    tbFormatContent strings kind action size duration (some detail) (some body)
  else tbFormatContent strings kind action size duration extra (some body)

end Format

/-! ### Where `format.c` cuts -/

/-- The bytes that are written are a terminated string of valid UTF-8 that fits its buffer, if there is one. -/
def Stored (size : ℕ) (written : List UInt8) : Prop :=
  size = 0 ∧ written = [] ∨ ∃ text, Utf8String text ∧ written = text ++ [0] ∧ written.length ≤ size

structure Pieces where
  front : CString
  detail : CString := []
  rest : CString := []

def Pieces.text (pieces : Pieces) : CString :=
  pieces.front ++ pieces.detail.take (detailSize - 1) ++ pieces.rest

/-- No cut after so many bytes, nor that of the detail before them, is within a character. -/
def Pieces.Whole (pieces : Pieces) (n : ℕ) : Prop :=
  if n ≤ (pieces.front ++ pieces.detail.take (detailSize - 1)).length then
    CutAt (pieces.front ++ pieces.detail) n
  else CutAt pieces.detail (detailSize - 1) ∧
    CutAt pieces.rest (n - (pieces.front ++ pieces.detail.take (detailSize - 1)).length)

section Pieces

variable (strings : TbStrings) (kind action duration : ℕ)

/-- What `tb_format_content` prints, uncut. The extra may be a detail itself. -/
def contentPieces (extra text : CString) (detailed : Bool) : Pieces :=
  if kind = tbKindText ∨ kind = tbKindNone then { front := text }
  else if kind = tbKindService then
    if action = tbActionCustom ∧ text ≠ [] then { front := text }
    else if extra ≠ [] then
      if detailed then { front := tbActionLabel strings action ++ literal ": ", detail := extra }
      else { front := tbActionLabel strings action ++ literal ": " ++ extra }
    else { front := tbActionLabel strings action }
  else
    { front := literal "[" ++ tbKindLabel strings kind
      detail :=
        if extra ≠ [] then literal " " ++ extra
        else if hasDuration kind ∧ 0 < duration then literal " " ++ cString (tbFormatDuration 16 duration)
        else []
      rest := if text ≠ [] then literal "] " ++ text else literal "]" }

/-- What `tb_format_message` prints, uncut. -/
def messagePieces (extra text : CString) (media count : ℕ) : Pieces :=
  let mark := markOf strings kind media
  if media &&& tbMediaFlagAlbum ≠ 0 ∧ 1 < count then
    { front := literal "["
      detail := (if kind = tbKindPaidMedia then tbKindLabel strings kind else strings.mediaAlbum.1) ++
        literal " " ++ digits count ++ (if mark ≠ [] then literal " · " else []) ++ mark
      rest := if text ≠ [] then literal "] " ++ text else literal "]" }
  else if mark ≠ [] then
    contentPieces strings kind action duration
      (extra ++ (if extra ≠ [] then literal " " else []) ++ literal "· " ++ mark) text true
  else contentPieces strings kind action duration extra text false

variable {text : CString}

theorem Utf8String.append {front : CString} (hfront : Utf8String front) (htext : Utf8String text) :
    Utf8String (front ++ text) :=
  ⟨hfront.characters.append htext.characters, by simp [hfront.ended, htext.ended]⟩

theorem utf8String_nil : Utf8String [] := ⟨characters_nil, by simp⟩

theorem utf8String_literal {text : String} (h : 0 ∉ literal text) : Utf8String (literal text) :=
  ⟨⟨text.toList, rfl⟩, h⟩

theorem digits_plain {n : ℕ} {byte : UInt8} (h : byte ∈ digits n) : byte ≠ 0 ∧ ¬ Continues byte := by
  obtain ⟨char, hchar, hbyte⟩ := mem_flatMap.mp h
  have hdigit := Fields.isDigit_of_mem_toDigits hchar
  have hall : ∀ n < 58, 48 ≤ n → ∀ byte ∈ String.utf8EncodeChar (Char.ofNat n),
      byte ≠ 0 ∧ ¬ Continues byte := by
    decide +kernel
  simp only [Char.isDigit, Bool.and_eq_true, decide_eq_true_eq] at hdigit
  refine hall char.toNat ?_ hdigit.1 byte (by rwa [Char.ofNat_toNat])
  exact Nat.lt_succ_of_le hdigit.2

theorem utf8String_digits (n : ℕ) : Utf8String (digits n) :=
  ⟨⟨Nat.toDigits 10 n, rfl⟩, fun h => (digits_plain h).1 rfl⟩

theorem Utf8String.if {other : CString} {p : Prop} [Decidable p] (htext : Utf8String text)
    (hother : Utf8String other) : Utf8String (if p then text else other) := by
  split_ifs
  · exact htext
  · exact hother

theorem cString_snprintf (h : 0 ∉ text) (n : ℕ) :
    cString (snprintf (n + 1) text) = text.take n := by
  have htake : ∀ byte ∈ text.take n, (decide (byte ≠ 0)) = true := fun byte hbyte =>
    decide_eq_true fun hzero => h (hzero ▸ mem_of_mem_take hbyte)
  rw [cString, snprintf, if_neg (Nat.succ_ne_zero n), strncpy, Nat.add_sub_cancel,
    takeWhile_append_of_pos htake]
  simp

theorem utf8String_duration (seconds : ℕ) : Utf8String (cString (tbFormatDuration 16 seconds)) := by
  have hplain : ∀ byte ∈ digits (seconds / 60) ++ literal ":" ++
      (if seconds % 60 < 10 then literal "0" else []) ++ digits (seconds % 60),
      byte ≠ 0 ∧ ¬ Continues byte := by
    intro byte hbyte
    simp only [mem_append] at hbyte
    rcases hbyte with ((hbyte | hbyte) | hbyte) | hbyte
    · exact digits_plain hbyte
    · obtain rfl : byte = 0x3A := mem_singleton.mp hbyte
      decide
    · split_ifs at hbyte
      · obtain rfl : byte = 0x30 := mem_singleton.mp hbyte
        decide
      · cases hbyte
    · exact digits_plain hbyte
  have hcolon : Utf8String (literal ":") := utf8String_literal (by decide)
  have hzero : Utf8String (literal "0") := utf8String_literal (by decide)
  have hvalid := (((utf8String_digits (seconds / 60)).append hcolon).append
    (hzero.if (p := seconds % 60 < 10) utf8String_nil)).append (utf8String_digits (seconds % 60))
  rw [tbFormatDuration, cString_snprintf fun hzero => (hplain 0 hzero).1 rfl]
  refine ⟨(hvalid.characters.take_iff 15).mpr fun byte hbyte => ?_, fun hzero => ?_⟩
  · exact (hplain byte (mem_of_getElem? hbyte)).2
  · exact hvalid.ended (mem_of_mem_take hzero)

variable {strings kind action duration}

structure Pieces.Utf8 (pieces : Pieces) : Prop where
  front : Utf8String pieces.front
  detail : Utf8String pieces.detail
  rest : Utf8String pieces.rest

theorem utf8_kindLabel : Utf8String (tbKindLabel strings kind) := by
  unfold tbKindLabel
  split_ifs <;> exact Subtype.property _

theorem utf8_actionLabel : Utf8String (tbActionLabel strings action) := by
  unfold tbActionLabel
  split_ifs <;> exact Subtype.property _

theorem utf8_mark (media : ℕ) : Utf8String (markOf strings kind media) := by
  unfold markOf
  split_ifs
  · exact Subtype.property _
  · exact Subtype.property _
  · exact utf8String_nil

theorem utf8_literals : Utf8String (literal "[") ∧ Utf8String (literal "]") ∧ Utf8String (literal "] ") ∧
    Utf8String (literal ": ") ∧ Utf8String (literal " ") ∧ Utf8String (literal " · ") ∧
    Utf8String (literal "· ") := by
  refine ⟨?_, ?_, ?_, ?_, ?_, ?_, ?_⟩ <;> exact utf8String_literal (by decide)

variable {extra : CString}

theorem contentPieces_utf8 (hextra : Utf8String extra) (htext : Utf8String text)
    (detailed : Bool) : (contentPieces strings kind action duration extra text detailed).Utf8 := by
  obtain ⟨hopen, hclose, hend, hcolon, hblank, -⟩ := utf8_literals
  have hduration := utf8String_duration duration
  unfold contentPieces
  split_ifs <;> constructor <;>
    simp only [Utf8String.append, utf8String_nil, utf8_kindLabel, utf8_actionLabel, *]

theorem messagePieces_utf8 (hextra : Utf8String extra) (htext : Utf8String text)
    (media count : ℕ) : (messagePieces strings kind action duration extra text media count).Utf8 := by
  obtain ⟨hopen, hclose, hend, hcolon, hblank, hdot, hmiddle⟩ := utf8_literals
  have hmark := @utf8_mark strings kind media
  have halbum := strings.mediaAlbum.2
  have hcount := utf8String_digits count
  unfold messagePieces
  by_cases hmany : media &&& tbMediaFlagAlbum ≠ 0 ∧ 1 < count
  · rw [if_pos hmany]
    have hname := Utf8String.if (p := kind = tbKindPaidMedia) (@utf8_kindLabel strings kind) halbum
    refine ⟨hopen, ?_, (hend.append htext).if hclose⟩
    exact (((hname.append hblank).append hcount).append (hdot.if utf8String_nil)).append hmark
  · rw [if_neg hmany]
    split_ifs
    · exact contentPieces_utf8 (((hextra.append hblank).append hmiddle).append hmark) htext true
    · exact contentPieces_utf8 (((hextra.append utf8String_nil).append hmiddle).append hmark) htext true
    · exact contentPieces_utf8 hextra htext false

/-- **What `tb_format_content` writes**, of an extra that may itself be what a buffer had room for. -/
theorem tbFormatContent_eq (hextra : Utf8String extra) (text : CString) (size : ℕ)
    (detailed : Bool) :
    tbFormatContent strings kind action size duration
        (some (if detailed then extra.take (detailSize - 1) else extra)) (some text) =
      snprintf size (contentPieces strings kind action duration extra text detailed).text := by
  have hnone : extra.take (detailSize - 1) = [] ↔ extra = [] := by
    rw [take_eq_nil_iff]
    exact or_iff_right (by decide)
  have hgiven : (if detailed then extra.take (detailSize - 1) else extra) = [] ↔ extra = [] := by
    cases detailed
    · exact Iff.rfl
    · exact hnone
  obtain ⟨hopen, hclose, hend, hcolon, hblank, -⟩ := utf8_literals
  unfold tbFormatContent contentPieces Pieces.text
  by_cases hsize : size = 0
  · rw [if_pos hsize, snprintf, if_pos hsize]
  rw [if_neg hsize]
  dsimp only [Option.getD_some]
  by_cases htext : kind = tbKindText ∨ kind = tbKindNone
  · rw [if_pos htext, if_pos htext]
    simp
  rw [if_neg htext, if_neg htext]
  by_cases hservice : kind = tbKindService
  · rw [if_pos hservice, if_pos hservice]
    by_cases hcustom : action = tbActionCustom ∧ text ≠ []
    · rw [if_pos hcustom, if_pos hcustom]
      simp
    rw [if_neg hcustom, if_neg hcustom]
    by_cases hextra : extra = []
    · rw [if_neg (not_not.mpr (hgiven.mpr hextra)), if_neg (not_not.mpr hextra)]
      simp
    · rw [if_pos (mt hgiven.mp hextra), if_pos hextra]
      cases detailed <;> simp
  rw [if_neg hservice, if_neg hservice]
  -- two buffers hold no more of the extra than one
  have hbuffer : cString (snprintf detailSize
      (literal " " ++ if detailed then extra.take (detailSize - 1) else extra)) =
        (literal " " ++ extra).take (detailSize - 1) := by
    cases detailed
    · exact cString_snprintf (hblank.append hextra).ended 63
    · have hcut : 0 ∉ literal " " ++ extra.take (detailSize - 1) := fun hzero =>
        (hblank.append hextra).ended <| mem_append.mpr <|
          (mem_append.mp hzero).imp_right mem_of_mem_take
      refine (cString_snprintf hcut 63).trans ?_
      rw [show literal " " = [32] by decide, singleton_append, singleton_append, detailSize]
      simp [take_take]
  have hdetail : (if (if detailed then extra.take (detailSize - 1) else extra) ≠ [] then
        cString (snprintf detailSize
          (literal " " ++ if detailed then extra.take (detailSize - 1) else extra))
      else if hasDuration kind ∧ 0 < duration then
        cString (snprintf detailSize (literal " " ++ cString (tbFormatDuration 16 duration)))
      else []) = (if extra ≠ [] then literal " " ++ extra
      else if hasDuration kind ∧ 0 < duration then literal " " ++ cString (tbFormatDuration 16 duration)
      else []).take (detailSize - 1) := by
    by_cases hextra : extra = []
    · rw [if_neg (not_not.mpr (hgiven.mpr hextra)), if_neg (not_not.mpr hextra)]
      split_ifs
      · exact cString_snprintf (hblank.append (utf8String_duration duration)).ended 63
      · rfl
    · rw [if_pos (mt hgiven.mp hextra), if_pos hextra, hbuffer]
  rw [hdetail]
  split_ifs <;> simp only [append_assoc]

theorem tbFormatMessage_eq {extra text : Option CString} (hextra : Utf8String (extra.getD []))
    (size media count : ℕ) :
    tbFormatMessage strings kind action size duration extra text media count = snprintf size
      (messagePieces strings kind action duration (extra.getD []) (text.getD []) media count).text := by
  obtain ⟨hopen, hclose, hend, hcolon, hblank, hdot, hmiddle⟩ := utf8_literals
  have hmark := @utf8_mark strings kind media
  unfold tbFormatMessage messagePieces
  dsimp only
  by_cases hmany : media &&& tbMediaFlagAlbum ≠ 0 ∧ 1 < count
  · rw [if_pos hmany, if_pos hmany, Pieces.text]
    have hname := Utf8String.if (p := kind = tbKindPaidMedia) (@utf8_kindLabel strings kind)
      strings.mediaAlbum.2
    have hbuffer := cString_snprintf ((((hname.append hblank).append (utf8String_digits count)).append
      (hdot.if (p := markOf strings kind media ≠ []) utf8String_nil)).append hmark).ended 63
    rw [detailSize, hbuffer]
    split_ifs <;> simp only [append_assoc]
  rw [if_neg hmany, if_neg hmany]
  by_cases hmarked : markOf strings kind media = []
  · rw [if_neg (not_not.mpr hmarked), if_neg (not_not.mpr hmarked)]
    exact tbFormatContent_eq hextra (text.getD []) size false
  · rw [if_pos hmarked, if_pos hmarked]
    have hdetail := (((hextra.append (hblank.if (p := extra.getD [] ≠ []) utf8String_nil)).append
      hmiddle).append hmark)
    rw [detailSize, cString_snprintf hdetail.ended 63]
    exact tbFormatContent_eq hdetail (text.getD []) size true

theorem stored_snprintf_iff (h : 0 ∉ text) (size : ℕ) :
    Stored size (snprintf size text) ↔ Characters (text.take (size - 1)) := by
  cases size with
  | zero => exact iff_of_true (.inl ⟨rfl, rfl⟩) (by simpa using characters_nil)
  | succ size =>
    rw [snprintf, if_neg (Nat.succ_ne_zero size), strncpy]
    constructor
    · rintro (⟨hzero, -⟩ | ⟨other, hother, hwritten, -⟩)
      · cases hzero
      · rw [append_cancel_right hwritten]
        exact hother.characters
    · refine fun hcharacters => .inr ⟨_, ⟨hcharacters, fun hzero => ?_⟩, rfl, ?_⟩
      · exact h (mem_of_mem_take hzero)
      · rw [length_append, length_take, length_singleton]
        omega

theorem Pieces.stored_iff {pieces : Pieces} (h : pieces.Utf8) (size : ℕ) :
    Stored size (snprintf size pieces.text) ↔ pieces.Whole (size - 1) := by
  have hended : 0 ∉ pieces.text := fun hzero =>
    ((h.front.append h.detail).append h.rest).ended <| by
      simp only [Pieces.text, mem_append] at hzero ⊢
      exact hzero.imp_left (Or.imp_right mem_of_mem_take)
  rw [stored_snprintf_iff hended]
  exact characters_cut_iff h.front.characters h.detail.characters h.rest.characters _ _

end Pieces

/-! ### `notify.c` -/

inductive TbNotifySource
  | connection
  | chats
  | send
deriving DecidableEq

inductive TbNotifyAction
  | noAction
  | refresh
  | openChat
  | check
  | wait
deriving DecidableEq

/-- `TbNotifyLevel`, from information to errors. -/
abbrev TbNotifyLevel := Fin 3

/-- `TB_NOTIFY_CAPACITY`, `TB_NOTIFY_INFO_TTL`, `TB_NOTIFY_TITLE_SIZE` and `TB_NOTIFY_BODY_SIZE`. -/
def tbNotifyCapacity : ℕ := 3

@[inherit_doc tbNotifyCapacity] def tbNotifyInfoTtl : ℕ := 5000

@[inherit_doc tbNotifyCapacity] def tbNotifyTitleSize : ℕ := 33

@[inherit_doc tbNotifyCapacity] def tbNotifyBodySize : ℕ := 97

/-- `TbNotification`; the arrays are what is written of them. -/
structure TbNotification where
  source : TbNotifySource
  level : TbNotifyLevel
  action : TbNotifyAction
  serial : ℕ := 0
  expires : ℕ := 0
  title : List UInt8
  body : List UInt8

/-- `TbNotify`, without its ports and its focus. -/
structure TbNotify where
  items : List TbNotification := []
  serial : ℕ := 0

namespace TbNotify

variable (notify : TbNotify) (source : TbNotifySource) (level : TbNotifyLevel)
  (action : TbNotifyAction) (title body : CString) (now : ℕ)

def expiresAt : ℕ :=
  if level = 0 then if (now + tbNotifyInfoTtl) % 2 ^ 32 = 0 then 1 else (now + tbNotifyInfoTtl) % 2 ^ 32
  else 0

def slotOf : Option ℕ :=
  (notify.items.zipIdx.filter fun item => item.1.source = source).getLast?.map Prod.snd

/-- The loop of `tb_notify_post` that looks for the weakest notification. -/
def weakest : ℕ × Option TbNotification :=
  notify.items.zipIdx.foldl
    (fun best item =>
      if best.2.all fun other => item.1.level < other.level ||
          (item.1.level = other.level && item.1.serial < other.serial)
      then (item.2, some item.1) else best)
    (0, none)

def same (item : TbNotification) : Bool :=
  item.level = level && item.action = action && cString item.title = title && cString item.body = body

/-- The end of `tb_notify_post`. -/
def write (slot : ℕ) : TbNotify :=
  let item : TbNotification :=
    { source, level, action
      serial := (notify.serial + 1) % 2 ^ 32
      expires := expiresAt level now
      title := snprintf tbNotifyTitleSize title
      body := snprintf tbNotifyBodySize body }
  { items := notify.items.take slot ++ item :: notify.items.drop (slot + 1)
    serial := (notify.serial + 1) % 2 ^ 32 }

/-- `tb_notify_post`. -/
def post : TbNotify × Bool :=
  match notify.slotOf source with
  | some slot =>
    match notify.items[slot]? with
    | some existing =>
      if same level action title body existing then
        ({ notify with items := notify.items.set slot { existing with expires := expiresAt level now } },
          true)
      else (notify.write source level action title body now slot, true)
    | none => (notify, true)
  | none =>
    if notify.items.length < tbNotifyCapacity then
      (notify.write source level action title body now notify.items.length, true)
    else
      match notify.weakest with
      | (slot, some item) =>
        if level < item.level then (notify, false)
        else (notify.write source level action title body now slot, true)
      | (_, none) => (notify, false)

/-- Whether `tb_notify_post` writes a notification. -/
def writes : Bool :=
  match notify.slotOf source with
  | some slot => (notify.items[slot]?).any fun existing => !same level action title body existing
  | none => notify.items.length < tbNotifyCapacity ||
      notify.weakest.2.any fun item => item.level ≤ level

/-- Every notice is made of whole characters. -/
def Readable : Prop :=
  ∀ item ∈ notify.items, Stored tbNotifyTitleSize item.title ∧ Stored tbNotifyBodySize item.body

variable {notify source level action title body now}

theorem readable_write_iff (h : notify.Readable) (htitle : Utf8String title) (hbody : Utf8String body)
    (slot : ℕ) : (notify.write source level action title body now slot).Readable ↔
      CutAt title (tbNotifyTitleSize - 1) ∧ CutAt body (tbNotifyBodySize - 1) := by
  rw [← htitle.characters.take_iff, ← hbody.characters.take_iff, ← stored_snprintf_iff htitle.ended,
    ← stored_snprintf_iff hbody.ended]
  constructor
  · exact fun hwritten => hwritten _ (mem_append_right _ mem_cons_self)
  · intro hstored item hitem
    rcases mem_append.mp hitem with hitem | hitem
    · exact h item (mem_of_mem_take hitem)
    · rcases mem_cons.mp hitem with rfl | hitem
      · exact hstored
      · exact h item (mem_of_mem_drop hitem)

theorem readable_post_iff (h : notify.Readable) (htitle : Utf8String title) (hbody : Utf8String body) :
    (notify.post source level action title body now).1.Readable ↔
      (notify.writes source level action title body = true →
        CutAt title (tbNotifyTitleSize - 1) ∧ CutAt body (tbNotifyBodySize - 1)) := by
  have hwrite := fun slot => @readable_write_iff notify source level action title body now h htitle hbody slot
  unfold post writes
  cases notify.slotOf source with
  | some slot =>
    dsimp only
    cases hexisting : notify.items[slot]? with
    | none => exact iff_of_true h nofun
    | some existing =>
      dsimp only
      split_ifs with hsame
      · refine iff_of_true (fun item hitem => ?_) (by simp [hsame])
        rcases mem_or_eq_of_mem_set hitem with hitem | rfl
        · exact h item hitem
        · exact h existing (mem_of_getElem? hexisting)
      · rw [hwrite]
        simp [hsame]
  | none =>
    split_ifs with hroom
    · rw [hwrite]
      simp [hroom]
    · rcases notify.weakest with ⟨slot, item⟩
      cases item with
      | none => exact iff_of_true h (by simp [hroom])
      | some item =>
        dsimp only
        split_ifs with hweaker
        · exact iff_of_true h (by simp [hroom, hweaker])
        · rw [hwrite]
          simp [hroom, Fin.not_lt.mp hweaker]

end TbNotify

theorem readable_empty : ({} : TbNotify).Readable := fun _ hitem => by cases hitem

/-- **Everything is valid UTF-8 exactly where no cut is within a character**: of what is written to a
buffer of any size, the cut of the whole and that of the detail; of a notification that is kept, the cuts of
its title and of its body. -/
theorem formatted_iff (strings : TbStrings) (kind action duration : ℕ) {extra text : Option CString}
    (hextra : Utf8String (extra.getD [])) (htext : Utf8String (text.getD [])) (size media count : ℕ)
    {notify : TbNotify} (h : notify.Readable) (source : TbNotifySource) (level : TbNotifyLevel)
    (reaction : TbNotifyAction) {title body : CString} (htitle : Utf8String title)
    (hbody : Utf8String body) (now : ℕ) :
    (Stored size (tbFormatContent strings kind action size duration extra text) ↔
      (contentPieces strings kind action duration (extra.getD []) (text.getD []) false).Whole (size - 1)) ∧
    (Stored size (tbFormatMessage strings kind action size duration extra text media count) ↔
      (messagePieces strings kind action duration (extra.getD []) (text.getD []) media count).Whole
        (size - 1)) ∧
    ((notify.post source level reaction title body now).1.Readable ↔
      (notify.writes source level reaction title body = true →
        CutAt title (tbNotifyTitleSize - 1) ∧ CutAt body (tbNotifyBodySize - 1))) := by
  refine ⟨?_, ?_, TbNotify.readable_post_iff h htitle hbody⟩
  · have hcontent := @tbFormatContent_eq strings kind action duration _ hextra (text.getD []) size false
    rw [← Pieces.stored_iff (contentPieces_utf8 hextra htext false), ← hcontent]
    exact Iff.rfl
  · rw [tbFormatMessage_eq hextra, Pieces.stored_iff (messagePieces_utf8 hextra htext media count)]

def longTitle : CString := literal "aбббббббббббббббб"

def plainStrings : TbStrings :=
  let plain : Localised := ⟨literal "a", utf8String_literal (by decide)⟩
  ⟨fun _ => plain, plain, fun _ => plain, plain, plain, plain, plain⟩

theorem formatted_plain :
    (Stored 4 (tbFormatContent plainStrings 1 0 4 0 none none) ↔
      (contentPieces plainStrings 1 0 0 [] [] false).Whole 3) ∧
    (Stored 4 (tbFormatMessage plainStrings 1 0 4 0 none none 2 0) ↔
      (messagePieces plainStrings 1 0 0 [] [] 2 0).Whole 3) ∧
    ((({} : TbNotify).post .send 2 .openChat (literal "a") [] 0).1.Readable ↔
      (({} : TbNotify).writes .send 2 .openChat (literal "a") [] = true →
        CutAt (literal "a") 32 ∧ CutAt [] 96)) :=
  @formatted_iff plainStrings 1 0 0 none none utf8String_nil utf8String_nil 4 2 0 {} readable_empty .send 2
    .openChat (literal "a") [] (utf8String_literal (by decide)) utf8String_nil 0

/-- **The last letter of a title is cut.** -/
theorem title_cut : ¬ (({} : TbNotify).post .send 2 .openChat longTitle [] 0).1.Readable := by
  intro hreadable
  have hlong : Utf8String longTitle := utf8String_literal (by decide)
  have hcut := (TbNotify.readable_post_iff readable_empty hlong utf8String_nil).mp hreadable (by decide)
  exact absurd hcut.1 (by decide)

end Watch
