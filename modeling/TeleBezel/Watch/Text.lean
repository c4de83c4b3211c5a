import TeleBezel.Lib.Parts

/-!
# Strings on the watch

The strings of the watch are zero-terminated arrays of fixed capacity, here the list of the bytes
before the terminator. Spans of a payload are copied into them, cut at a UTF-8 boundary, and ids
only when they are canonical decimals.
-/

namespace Watch

abbrev CString := List UInt8

def tbAccountIdSize : ℕ := 37

def tbTelegramIdSize : ℕ := 21

def cString (bytes : List UInt8) : CString := bytes.takeWhile (· ≠ 0)

/-- `strncpy` into a cleared array of the capacity, whose last byte stays zero; `snprintf` of a
`%s` gives the same string. -/
def strncpy (capacity : ℕ) (value : CString) : CString := value.take (capacity - 1)

def tbUtf8Fit (data : List UInt8) (capacity : ℕ) : ℕ :=
  if capacity = 0 then 0
  else
    let size := if data.length < capacity - 1 then data.length else capacity - 1
    if size < data.length then Parts.back data size else size

/-- How many bytes of a part are taken: what there is room for, up to a whole character. -/
def cutTo (room : ℕ) (part : List UInt8) : ℕ :=
  if part.length ≤ room then part.length else Parts.back part room

/-- `tb_copy_span`, into an array that is not empty. -/
def tbCopySpan (capacity : ℕ) (value : List UInt8) : CString :=
  cString (value.take (tbUtf8Fit value capacity))

/-- The loop of `tb_parse_id`: `result` is the value of the digits read. -/
def parseDigits (negative : Bool) : List UInt8 → ℕ → Option ℤ
  | [], result => some (if negative then -(result : ℤ) else result)
  | c :: rest, result =>
    if c < 0x30 ∨ 0x39 < c then none
    else
      let digit := c.toNat - 0x30
      -- the next digit would leave the 64-bit range: only the least value may end here
      if 922337203685477580 < result ∨ (result = 922337203685477580 ∧ 7 < digit) then
        if negative = true ∧ result = 922337203685477580 ∧ digit = 8 ∧ rest = [] then
          some (-9223372036854775808)
        else none
      else parseDigits negative rest (result * 10 + digit)

def tbParseId (value : CString) : Option ℤ :=
  match value with
  | [] => none
  | 0x2D :: rest => if rest = [] then none else parseDigits true rest 0
  | value => parseDigits false value 0

/-- `tb_copy_id`: whether the span was taken, and the string of the array after the call. -/
def tbCopyId (out : CString) (capacity : ℕ) (value : List UInt8) (allowNegative : Bool) :
    Bool × CString :=
  if value.length = 0 ∨ capacity ≤ value.length then (false, out)
  else if value.getD 0 0 = 0x2D ∧ (allowNegative = false ∨ value.length < 2) then (false, out)
  else
    let digits := if value.getD 0 0 = 0x2D then value.drop 1 else value
    if digits.getD 0 0 = 0x30 then (false, out)
    else if digits.any (fun c => c < 0x30 || 0x39 < c) then (false, out)
    else if tbParseId value = none then (false, [])
    else (true, value)

end Watch
