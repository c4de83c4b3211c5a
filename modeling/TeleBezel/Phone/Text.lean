import Mathlib.Data.List.DropRight
import TeleBezel.Lib.Parts
import TeleBezel.Phone.Codec

/-!
# How the phone writes a text for the watch

`app/src/pkjs/lib/text.js`: a text becomes code points, code points are gathered to what is seen as one
character, and each of those becomes what the watch has a glyph for; the bytes are cut at a limit, and
split where no character is. `normalize` of the language is a parameter.
-/

open List

namespace Phone.Text

open Codec (Encoded)

def placeholder : ℕ := 0x25AF

def ellipsis : ℕ := 0x2026

def emoji : List ℕ :=
  [0x2639, 0x263A, 0x2665, 0x2764, 0x2600, 0x2601, 0x2614, 0x26A1, 0x2B50, 0x2728, 0x270C, 0x2705,
    0x274C, 0x1F44B, 0x1F44C, 0x1F44D, 0x1F44E, 0x1F44F, 0x1F64F, 0x1F389, 0x1F525, 0x1F4A9, 0x1F494,
    0x1F495, 0x1F499, 0x1F49C, 0x1F4AA, 0x1F440, 0x1F914, 0x1F917, 0x1F923]

def inRange (value low high : ℕ) : Bool := low ≤ value && value ≤ high

def whitelisted (value : ℕ) : Bool := inRange value 0x1F600 0x1F64F || emoji.contains value

def isCombining (value : ℕ) : Bool :=
  inRange value 0x0300 0x036F || inRange value 0x1AB0 0x1AFF || inRange value 0x1DC0 0x1DFF ||
    inRange value 0x20D0 0x20FF || inRange value 0xFE20 0xFE2F

def isSelector (value : ℕ) : Bool := inRange value 0xFE00 0xFE0F || inRange value 0xE0100 0xE01EF

def isModifier (value : ℕ) : Bool := inRange value 0x1F3FB 0x1F3FF

def isTag (value : ℕ) : Bool := inRange value 0xE0020 0xE007F

def isRegional (value : ℕ) : Bool := inRange value 0x1F1E6 0x1F1FF

def isRemoved (value : ℕ) : Bool :=
  (value < 0x20 && value ≠ 0x0A && value ≠ 0x09) || inRange value 0x7F 0x9F || value = 0xAD ||
    inRange value 0x200B 0x200C || inRange value 0x200E 0x200F || inRange value 0x202A 0x202E ||
    inRange value 0x2060 0x2064 || inRange value 0x2066 0x2069 || value = 0xFEFF

def isPictographic (value : ℕ) : Bool :=
  0x1F000 ≤ value || inRange value 0x2600 0x27BF || inRange value 0x2B00 0x2BFF

def lonePoint (unit : ℕ) : ℕ := if inRange unit 0xD800 0xDFFF then placeholder else unit

def codePoints : JsString → List ℕ
  | [] => []
  | [unit] => [lonePoint unit]
  | high :: low :: rest =>
    if inRange high 0xD800 0xDBFF && inRange low 0xDC00 0xDFFF then
      ((high - 0xD800) * 0x400 + (low - 0xDC00) + 0x10000) :: codePoints rest
    else lonePoint high :: codePoints (low :: rest)

def belongs (next : ℕ) : Bool :=
  isCombining next || isSelector next || isModifier next || isTag next || next = 0x20E3

/-- The inner loop of `clusters`: what belongs to a cluster, and the code points after it. -/
def gather : List ℕ → List ℕ × List ℕ
  | [] => ([], [])
  | [next] => if belongs next then ([next], []) else ([], [next])
  | next :: joined :: rest =>
    if belongs next then
      let (more, after) := gather (joined :: rest)
      (next :: more, after)
    else if next = 0x200D then
      let (more, after) := gather rest
      (next :: joined :: more, after)
    else ([], next :: joined :: rest)

/-- `clusters`, each as its base and what belongs to it. A cluster takes a code point, so that their
number is fuel enough. -/
def clusters : ℕ → List ℕ → List (ℕ × List ℕ)
  | 0, _ => []
  | _, [] => []
  | fuel + 1, base :: points =>
    let (second, points) := match points with
      | next :: rest => if isRegional base && isRegional next then ([next], rest) else ([], points)
      | [] => ([], points)
    let (more, after) := gather points
    (base, second ++ more) :: clusters fuel after

def resolve (base : ℕ) (rest : List ℕ) : List ℕ :=
  if base = 0x0D then [0x0A]
  else if base = 0x09 then [0x20]
  else if isRemoved base || isCombining base || isSelector base || isModifier base || isTag base ||
      base = 0x200D then []
  else if (base :: rest).contains 0x20E3 then [if base < 0x80 then base else placeholder]
  else
    let extra := rest.filter fun value => !isSelector value && !isCombining value
    if extra ≠ [] || isRegional base then [placeholder]
    else if isPictographic base then [if whitelisted base then base else placeholder]
    else if 0xFFFF < base then [placeholder]
    else [base]

/-- `text.replace(/\r\n?/g, '\n')`. -/
def newlines : JsString → JsString
  | [] => []
  | [unit] => [if unit = 0x0D then 0x0A else unit]
  | unit :: next :: rest =>
    if unit = 0x0D then
      if next = 0x0A then 0x0A :: newlines rest else 0x0A :: newlines (next :: rest)
    else unit :: newlines (next :: rest)

def utf8Length (value : ℕ) : ℕ :=
  if value < 0x80 then 1 else if value < 0x800 then 2 else if value < 0x10000 then 3 else 4

def pushUtf8 (value : ℕ) : List UInt8 :=
  if value < 0x80 then [UInt8.ofNat value]
  else if value < 0x800 then
    [UInt8.ofNat (0xC0 ||| (value >>> 6)), UInt8.ofNat (0x80 ||| (value &&& 0x3F))]
  else if value < 0x10000 then
    [UInt8.ofNat (0xE0 ||| (value >>> 12)), UInt8.ofNat (0x80 ||| ((value >>> 6) &&& 0x3F)),
      UInt8.ofNat (0x80 ||| (value &&& 0x3F))]
  else
    [UInt8.ofNat (0xF0 ||| (value >>> 18)), UInt8.ofNat (0x80 ||| ((value >>> 12) &&& 0x3F)),
      UInt8.ofNat (0x80 ||| ((value >>> 6) &&& 0x3F)), UInt8.ofNat (0x80 ||| (value &&& 0x3F))]

/-- The loop of `units` over what is resolved, with the newlines and the spaces that came last. -/
def compact (singleLine : Bool) : ℕ → ℕ → List (List ℕ) → List (List ℕ)
  | _, _, [] => []
  | newlines, spaces, points :: rest =>
    if points.head? = some 0x0A then
      let more := compact singleLine (newlines + 1) 0 rest
      if newlines + 1 ≤ 2 then points :: more else more
    else if points.head? = some 0x20 then
      if singleLine && 1 < spaces + 1 then compact singleLine newlines (spaces + 1) rest
      else points :: compact singleLine 0 (spaces + 1) rest
    else points :: compact singleLine 0 0 rest

def blank (points : List ℕ) : Bool := points.head? = some 0x0A || points.head? = some 0x20

def shownAs (singleLine : Bool) (cluster : ℕ × List ℕ) : Option (List ℕ) :=
  match resolve cluster.1 cluster.2 with
  | [] => none
  | point :: rest => some (if singleLine && point = 0x0A then [0x20] else point :: rest)

def continues (byte : UInt8) : Bool := Parts.Continues byte

def dropLastPoint (bytes : List UInt8) : List UInt8 :=
  bytes.take (Parts.back bytes (bytes.length - 1))

/-- The loop of `encode`. -/
def encodeLoop (limit : ℕ) : List (List ℕ) → List UInt8 → Encoded
  | [], bytes => ⟨bytes, false⟩
  | unit :: rest, bytes =>
    let size := (unit.map utf8Length).sum
    let reserve := if rest = [] then 0 else 3
    if limit < bytes.length + size + reserve then ⟨bytes, true⟩
    else encodeLoop limit rest (bytes ++ unit.flatMap pushUtf8)

/-- Characters are dropped until there is room for the ellipsis; each takes bytes, so that their number
is fuel enough. -/
def makeRoom (limit : ℕ) : ℕ → List UInt8 → List UInt8
  | 0, bytes => bytes
  | fuel + 1, bytes =>
    if 0 < bytes.length ∧ limit < bytes.length + 3 then makeRoom limit fuel (dropLastPoint bytes)
    else bytes

section

variable (normalize : JsString → JsString)

def normalizeString (value : JsString) : JsString := newlines (normalize value)

def units (value : JsString) (singleLine : Bool) : List (List ℕ) :=
  let points := codePoints (normalizeString normalize value)
  let resolved := (clusters points.length points).filterMap (shownAs singleLine)
  ((compact singleLine 0 0 resolved).dropWhile blank).rdropWhile blank

def encode (value : JsString) (limit : ℕ) (singleLine : Bool) : Encoded :=
  let encoded := encodeLoop limit (units normalize value singleLine) []
  if encoded.truncated then
    let bytes := makeRoom limit encoded.bytes.length encoded.bytes
    let bytes := bytes.rdropWhile fun byte => byte = 0x20 || byte = 0x0A
    ⟨if 3 ≤ limit then bytes ++ pushUtf8 ellipsis else bytes, true⟩
  else encoded

end

/-- The end of the next part: back to where a character starts, or after the first one. -/
def partEnd (size : ℕ) (bytes : List UInt8) : ℕ :=
  if size < bytes.length then
    let «end» := Parts.back bytes size
    if «end» = 0 then 1 + ((bytes.drop 1).takeWhile continues).length else «end»
  else bytes.length

/-- The loop of `splitUtf8`. A part takes bytes, so that their number is fuel enough. -/
def splitLoop (size : ℕ) : ℕ → List UInt8 → List (List UInt8)
  | 0, _ => []
  | _, [] => []
  | fuel + 1, bytes@(_ :: _) =>
    bytes.take (partEnd size bytes) :: splitLoop size fuel (bytes.drop (partEnd size bytes))

def splitUtf8 (bytes : List UInt8) (size : ℕ) : List (List UInt8) := splitLoop size bytes.length bytes

/-! ### The limit -/

theorem length_pushUtf8 (value : ℕ) : (pushUtf8 value).length = utf8Length value := by
  rw [pushUtf8, utf8Length]
  split_ifs
  · rfl
  · rfl
  · rfl
  · rfl

theorem length_pushAll (unit : List ℕ) :
    (unit.flatMap pushUtf8).length = (unit.map utf8Length).sum := by
  induction unit with
  | nil => rfl
  | cons point unit ih =>
    rw [flatMap_cons, length_append, length_pushUtf8, ih, map_cons, sum_cons]

theorem length_encodeLoop_le {limit : ℕ} (list : List (List ℕ)) {bytes : List UInt8}
    (h : bytes.length ≤ limit) : (encodeLoop limit list bytes).bytes.length ≤ limit := by
  induction list generalizing bytes with
  | nil => exact h
  | cons unit rest ih =>
    rw [encodeLoop]
    generalize (if rest = [] then 0 else 3) = reserve
    split
    · exact h
    · rename_i hroom
      apply ih
      rw [length_append, length_pushAll]
      omega

theorem length_dropLastPoint_lt {bytes : List UInt8} (h : 0 < bytes.length) :
    (dropLastPoint bytes).length < bytes.length := by
  have hstart := Parts.back_le bytes (bytes.length - 1)
  rw [dropLastPoint, length_take]
  omega

theorem makeRoom_spec {limit fuel : ℕ} {bytes : List UInt8} (h : bytes.length ≤ fuel) :
    (makeRoom limit fuel bytes).length ≤ bytes.length ∧
      ((makeRoom limit fuel bytes).length = 0 ∨ (makeRoom limit fuel bytes).length + 3 ≤ limit) := by
  induction fuel generalizing bytes with
  | zero => exact ⟨Nat.le_refl _, .inl (Nat.le_zero.1 h)⟩
  | succ fuel ih =>
    rw [makeRoom]
    split
    · rename_i hdrop
      have hless := length_dropLastPoint_lt hdrop.1
      obtain ⟨hle, hroom⟩ := @ih (dropLastPoint bytes) (by omega)
      exact ⟨by omega, hroom⟩
    · exact ⟨Nat.le_refl _, by omega⟩

theorem length_encode_le (normalize : JsString → JsString) (value : JsString) (limit : ℕ)
    (singleLine : Bool) : (encode normalize value limit singleLine).bytes.length ≤ limit := by
  have hloop : (encodeLoop limit (units normalize value singleLine) []).bytes.length ≤ limit :=
    length_encodeLoop_le (units normalize value singleLine) (Nat.zero_le limit)
  rw [encode]
  split
  · generalize (encodeLoop limit (units normalize value singleLine) []).bytes = bytes at hloop ⊢
    obtain ⟨hle, hroom⟩ := @makeRoom_spec limit bytes.length bytes (Nat.le_refl _)
    have htrimmed := (List.rdropWhile_prefix (fun byte => byte = 0x20 || byte = 0x0A)
      (l := makeRoom limit bytes.length bytes)).length_le
    dsimp only
    split
    · have hellipsis : (pushUtf8 ellipsis).length = 3 := rfl
      rw [length_append, hellipsis]
      omega
    · omega
  · exact hloop

/-! ### The parts -/

theorem partEnd_spec {bytes : List UInt8} (size : ℕ) (h : bytes ≠ []) :
    1 ≤ partEnd size bytes ∧ partEnd size bytes ≤ bytes.length := by
  have hpos := length_pos_of_ne_nil h
  have hstart := Parts.back_le bytes size
  rw [partEnd]
  dsimp only
  split
  · split
    · have hwhile := (List.takeWhile_prefix continues (l := bytes.drop 1)).length_le
      rw [length_drop] at hwhile
      omega
    · omega
  · omega

theorem flatten_splitLoop {size fuel : ℕ} {bytes : List UInt8} (h : bytes.length ≤ fuel) :
    (splitLoop size fuel bytes).flatten = bytes := by
  induction fuel generalizing bytes with
  | zero => exact (length_eq_zero_iff.1 (Nat.le_zero.1 h)).symm
  | succ fuel ih =>
    cases hbytes : bytes with
    | nil => rfl
    | cons byte rest =>
      rw [← hbytes]
      have hne : bytes ≠ [] := by rw [hbytes]; exact cons_ne_nil byte rest
      have hend := partEnd_spec size hne
      have hsplit : splitLoop size (fuel + 1) bytes =
          bytes.take (partEnd size bytes) :: splitLoop size fuel (bytes.drop (partEnd size bytes)) := by
        rw [hbytes]
        rfl
      rw [hsplit, flatten_cons, ih, take_append_drop]
      rw [length_drop]
      omega

theorem flatten_splitUtf8 (bytes : List UInt8) (size : ℕ) : (splitUtf8 bytes size).flatten = bytes :=
  flatten_splitLoop (Nat.le_refl _)

theorem length_le_of_mem_splitUtf8 {bytes part : List UInt8} {size : ℕ}
    (h : part ∈ splitUtf8 bytes size) : part.length ≤ bytes.length := by
  have hsublist := (sublist_flatten_of_mem h).length_le
  rwa [flatten_splitUtf8] at hsublist

end Phone.Text
