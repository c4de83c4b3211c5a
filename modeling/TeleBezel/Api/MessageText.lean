import TeleBezel.Lib.Quoted

/-!
# What a send is made of

The texts and identifiers of a send as the API takes them: `TelegramId`, `MessageText` and the
request digest of `MessageSendService` in `backend-api/app`. A string of the source that holds
text is a `String`; where its bytes may fail to be UTF-8 it is an `Option String`.
-/

open List

namespace Api

open Quoted

/-- A string of the source that holds no text. A digest is its bytes, however it is written. -/
abbrev Bytes := List ℕ

/-- What the language gives the service: the normaliser, its digests, and the application key. -/
structure Env where
  /-- `Normalizer::normalize` to form C. -/
  normalize : String → Option String
  /-- `hash` with `sha256`. -/
  hash : String → Bytes
  /-- `hash_hmac` with `sha256`, on the data and the key. -/
  hashHmac : String → Bytes → Bytes
  appKey : Bytes

/-- `[0-9]`. -/
def isDigit (c : Char) : Bool := '0' ≤ c && c ≤ '9'

/-- `[1-9][0-9]{0,18}`. -/
def digitsPattern : List Char → Bool
  | [] => false
  | c :: rest => '1' ≤ c && c ≤ '9' && rest.length ≤ 18 && rest.all isDigit

/-- `-?[1-9][0-9]{0,18}`. -/
def idPattern : List Char → Bool
  | '-' :: rest => digitsPattern rest
  | text => digitsPattern text

def decimal (digits : List Char) : ℕ := digits.foldl (fun n c => n * 10 + (c.toNat - 48)) 0

/-- Whether decimal digits stand for an integer of 64 bits, as `FILTER_VALIDATE_INT` asks and a
`bigInteger` column needs. -/
def fitsInt64 : List Char → Bool
  | '-' :: rest => decimal rest ≤ 2 ^ 63
  | text => decimal text < 2 ^ 63

/-- The values `TelegramId` accepts. -/
def telegramId (value : String) : Bool := idPattern value.toList && fitsInt64 value.toList

def maximumUtf16Units : ℕ := 4096

def replaceCrLf : List Char → List Char
  | [] => []
  | [c] => [c]
  | c :: d :: rest =>
    if c = '\r' ∧ d = '\n' then '\n' :: replaceCrLf rest else c :: replaceCrLf (d :: rest)

/-- The general category `Cc`. -/
def isControl (c : Char) : Bool := c.toNat < 32 || (127 ≤ c.toNat && c.toNat ≤ 159)

/-- What `trim` takes off. -/
def isTrimmed (c : Char) : Bool :=
  c = ' ' || c = '\n' || c = '\r' || c = '\t' || c.toNat = 11 || c.toNat = 0

def trim (text : List Char) : List Char :=
  ((text.dropWhile isTrimmed).reverse.dropWhile isTrimmed).reverse

def canonical (env : Env) (text : Option String) : Option String := do
  let text ← text
  let unified := (replaceCrLf text.toList).map fun c => if c = '\r' then '\n' else c
  let normalized ← env.normalize (String.ofList unified)
  -- the pattern asks for a control character that is no line end
  let stripped := normalized.toList.filter fun c => !(isControl c && c ≠ '\n')
  return String.ofList (trim stripped)

def utf16Length (text : String) : ℕ :=
  (text.toList.map fun c => if c.toNat < 0x10000 then 1 else 2).sum

def hex4 (n : ℕ) : List Char :=
  [Nat.digitChar (n / 4096), Nat.digitChar (n / 256 % 16), Nat.digitChar (n / 16 % 16),
    Nat.digitChar (n % 16)]

/-- `json_encode` on one character of a string, with `JSON_UNESCAPED_UNICODE`: the line and
paragraph separators stay escaped. -/
def jsonEscape (c : Char) : List Char :=
  if c = '"' then ['\\', '"']
  else if c = '\\' then ['\\', '\\']
  else if c = '/' then ['\\', '/']
  else if c.toNat = 8 then ['\\', 'b']
  else if c.toNat = 12 then ['\\', 'f']
  else if c = '\n' then ['\\', 'n']
  else if c = '\r' then ['\\', 'r']
  else if c = '\t' then ['\\', 't']
  else if c.toNat < 32 ∨ c.toNat = 0x2028 ∨ c.toNat = 0x2029 then '\\' :: 'u' :: hex4 c.toNat
  else [c]

/-- `json_encode` on a string. -/
def jsonString (text : String) : List Char :=
  '"' :: text.toList.flatMap jsonEscape ++ ['"']

/-- The JSON that `requestHmac` digests. -/
def requestJson (chat : String) (reply : Option String) (text : String) : String :=
  String.ofList ("\x7b\x22chat\x22:".toList ++ jsonString chat ++ ",\x22reply_to\x22:".toList ++
    (match reply with
      | none => "null".toList
      | some reply => jsonString reply) ++ ",\x22text\x22:".toList ++ jsonString text ++ ['}'])

def Env.requestHmac (env : Env) (chat : String) (reply : Option String) (text : String) : Bytes :=
  env.hashHmac (requestJson chat reply text) (env.hashHmac "telebezel/message-sends/v1" env.appKey)

def hexValue (c : Char) : ℕ := if c.toNat < 58 then c.toNat - 48 else c.toNat - 87

/-! ### Strings are read back -/

/-- A unit of four hexadecimal digits. -/
def readUnit : List Char → Option (ℕ × List Char)
  | '\\' :: 'u' :: a :: b :: c :: d :: rest =>
    some (((hexValue a * 16 + hexValue b) * 16 + hexValue c) * 16 + hexValue d, rest)
  | _ => none

def unescapeShort : List Char → Option (Char × List Char)
  | '\\' :: 'b' :: rest => some (Char.ofNat 8, rest)
  | '\\' :: 'f' :: rest => some (Char.ofNat 12, rest)
  | '\\' :: 'n' :: rest => some ('\n', rest)
  | '\\' :: 'r' :: rest => some ('\r', rest)
  | '\\' :: 't' :: rest => some ('\t', rest)
  | '\\' :: c :: rest => some (c, rest)
  | c :: rest => some (c, rest)
  | [] => none

def unescape (text : List Char) : Option (Char × List Char) :=
  match readUnit text with
  | some (n, rest) =>
    if n < 0xD800 ∨ 0xDFFF < n then some (Char.ofNat n, rest)
    else (readUnit rest).map fun (m, rest) =>
      (Char.ofNat (0x10000 + (n - 0xD800) * 0x400 + (m - 0xDC00)), rest)
  | none => unescapeShort text

theorem hexValue_digitChar {d : ℕ} (h : d < 16) : hexValue (Nat.digitChar d) = d := by
  have hall : ∀ d : Fin 16, hexValue (Nat.digitChar d) = d := by decide
  exact hall ⟨d, h⟩

theorem readUnit_hex4 (n : ℕ) (rest : List Char) (h : n < 65536) :
    readUnit ('\\' :: 'u' :: hex4 n ++ rest) = some (n, rest) := by
  have hn : ((n / 4096 * 16 + n / 256 % 16) * 16 + n / 16 % 16) * 16 + n % 16 = n := by omega
  simp only [hex4, cons_append, nil_append, readUnit]
  rw [hexValue_digitChar (by omega), hexValue_digitChar (by omega), hexValue_digitChar (by omega),
    hexValue_digitChar (by omega), hn]

theorem unescape_hex4 {c : Char} (h : c.toNat < 65536) (rest : List Char) :
    unescape ('\\' :: 'u' :: hex4 c.toNat ++ rest) = some (c, rest) := by
  have hvalid : c.toNat < 0xD800 ∨ 0xDFFF < c.toNat ∧ c.toNat < 0x110000 := c.valid
  unfold unescape
  rw [readUnit_hex4 _ _ h]
  dsimp only
  rw [if_pos (by omega), Char.ofNat_toNat]

theorem unescape_self {c : Char} (h : c ≠ '\\') (rest : List Char) :
    unescape ([c] ++ rest) = some (c, rest) := by
  have hunit : readUnit ([c] ++ rest) = none := by
    rw [singleton_append, readUnit]
    rintro a b c' d rest' ⟨⟩
    exact h rfl
  unfold unescape
  rw [hunit, singleton_append, unescapeShort]
  all_goals simp_all

theorem eq_ofNat_of_toNat_eq {c : Char} {n : ℕ} (h : c.toNat = n) : c = Char.ofNat n := by
  rw [← h, Char.ofNat_toNat]

theorem unescape_jsonEscape (c : Char) (rest : List Char) :
    unescape (jsonEscape c ++ rest) = some (c, rest) := by
  unfold jsonEscape
  split_ifs with h₁ h₂ h₃ h₄ h₅ h₆ h₇ h₈ h₉
  · rw [h₁]; rfl
  · rw [h₂]; rfl
  · rw [h₃]; rfl
  · rw [eq_ofNat_of_toNat_eq h₄]; rfl
  · rw [eq_ofNat_of_toNat_eq h₅]; rfl
  · rw [h₆]; rfl
  · rw [h₇]; rfl
  · rw [h₈]; rfl
  · exact unescape_hex4 (by omega) rest
  · exact unescape_self h₂ rest

theorem jsonEscape_append_ne (c : Char) (rest rest' : List Char) :
    jsonEscape c ++ rest ≠ '"' :: rest' := by
  unfold jsonEscape
  split_ifs <;> simp_all

theorem readable_jsonEscape : Readable jsonEscape '"' :=
  Readable.of_decoder unescape unescape_jsonEscape jsonEscape_append_ne

theorem quoted_append_inj {escape : Char → List Char} (hreadable : Readable escape '"') {a b : String}
    {r r' : List Char} (h : '"' :: a.toList.flatMap escape ++ ['"'] ++ r =
      '"' :: b.toList.flatMap escape ++ ['"'] ++ r') : a = b ∧ r = r' := by
  simp only [cons_append, append_assoc, nil_append, List.cons.injEq, true_and] at h
  obtain ⟨hab, hr⟩ := hreadable.flatMap_append_inj _ _ _ _ h
  exact ⟨String.toList_inj.mp hab, hr⟩

theorem jsonString_append_inj {a b : String} {r r' : List Char}
    (h : jsonString a ++ r = jsonString b ++ r') : a = b ∧ r = r' :=
  quoted_append_inj readable_jsonEscape h

theorem requestJson_injective {chat chat' text text' : String} {reply reply' : Option String}
    (h : requestJson chat reply text = requestJson chat' reply' text') :
    chat = chat' ∧ reply = reply' ∧ text = text' := by
  have hlist := String.ofList_injective h
  simp only [append_assoc] at hlist
  obtain ⟨rfl, h₁⟩ := jsonString_append_inj (append_cancel_left hlist)
  have h₂ := append_cancel_left h₁
  -- a reply is a string, and no string begins as `null` does
  cases reply with
  | none =>
    cases reply' with
    | none =>
      have h₃ := append_cancel_left (append_cancel_left h₂)
      obtain ⟨rfl, -⟩ := jsonString_append_inj h₃
      exact ⟨rfl, rfl, rfl⟩
    | some reply' => simp [jsonString] at h₂
  | some reply =>
    cases reply' with
    | none => simp [jsonString] at h₂
    | some reply' =>
      obtain ⟨rfl, h₃⟩ := jsonString_append_inj h₂
      obtain ⟨rfl, -⟩ := jsonString_append_inj (append_cancel_left h₃)
      exact ⟨rfl, rfl, rfl⟩

end Api
