import Mathlib.Data.List.Sort
import Mathlib.Data.String.Basic
import TeleBezel.Api.MessageText

/-!
# The canonical form of a value

`canonicalJson` of `TelegramAccountService` in `backend-api/app` sorts the keys of every object,
however deep, leaves lists as they are, and encodes the result. The values are those that the body
of a request decodes to. An array of the source is a list or an object; one without entries is a
list.
-/

open List

namespace Api

open Quoted

inductive Json
  | null
  | bool (b : Bool)
  | int (n : ℤ)
  | str (text : String)
  | list (items : List Json)
  | object (members : List (String × Json))

namespace Json

/-- What `ksort` orders by: the bytes of keys that are no numbers. -/
def KeyLe (a b : String × Json) : Prop := a.1 ≤ b.1

instance : DecidableRel KeyLe := fun a b => inferInstanceAs (Decidable (a.1 ≤ b.1))

instance : Std.Total KeyLe := ⟨fun a b => String.le_total a.1 b.1⟩

instance : IsTrans (String × Json) KeyLe := ⟨fun _ _ _ h h' => String.le_trans h h'⟩

mutual

def sort : Json → Json
  | .list items => .list (sortItems items)
  | .object members => .object ((sortMembers members).insertionSort KeyLe)
  | value => value

/-- `sort`, on the items of a list. -/
def sortItems : List Json → List Json
  | [] => []
  | item :: rest => sort item :: sortItems rest

/-- `sort`, on the values of an object. -/
def sortMembers : List (String × Json) → List (String × Json)
  | [] => []
  | (key, value) :: rest => (key, sort value) :: sortMembers rest

end

/-- `json_encode` on one character of a string, with `JSON_UNESCAPED_SLASHES`. -/
def escape (c : Char) : List Char :=
  if c = '"' then ['\\', '"']
  else if c = '\\' then ['\\', '\\']
  else if c.toNat = 8 then ['\\', 'b']
  else if c.toNat = 12 then ['\\', 'f']
  else if c = '\n' then ['\\', 'n']
  else if c = '\r' then ['\\', 'r']
  else if c = '\t' then ['\\', 't']
  else if c.toNat < 32 ∨ 128 ≤ c.toNat ∧ c.toNat < 0x10000 then '\\' :: 'u' :: hex4 c.toNat
  else if 128 ≤ c.toNat then
    -- two surrogates
    '\\' :: 'u' :: hex4 (0xD800 + (c.toNat - 0x10000) / 0x400) ++
      '\\' :: 'u' :: hex4 (0xDC00 + (c.toNat - 0x10000) % 0x400)
  else [c]

/-- `json_encode` on a string. -/
def encodeString (text : String) : List Char := '"' :: text.toList.flatMap escape ++ ['"']

mutual

/-- `json_encode`. -/
def encode : Json → List Char
  | .null => "null".toList
  | .bool true => "true".toList
  | .bool false => "false".toList
  | .int n => (toString n).toList
  | .str text => encodeString text
  | .list [] => ['[', ']']
  | .list (item :: rest) => '[' :: encode item ++ encodeItems rest
  | .object [] => ['\x7b', '}']
  | .object ((key, value) :: rest) =>
    '\x7b' :: encodeString key ++ ':' :: encode value ++ encodeMembers rest

def encodeItems : List Json → List Char
  | [] => [']']
  | item :: rest => ',' :: encode item ++ encodeItems rest

def encodeMembers : List (String × Json) → List Char
  | [] => ['}']
  | (key, value) :: rest => ',' :: encodeString key ++ ':' :: encode value ++ encodeMembers rest

end

/-! ### Strings and integers are read back -/

theorem unescape_escape (c : Char) (rest : List Char) :
    unescape (escape c ++ rest) = some (c, rest) := by
  have hvalid : c.toNat < 0xD800 ∨ 0xDFFF < c.toNat ∧ c.toNat < 0x110000 := c.valid
  unfold escape
  split_ifs with h₁ h₂ h₃ h₄ h₅ h₆ h₇ h₈ h₉
  · rw [h₁]; rfl
  · rw [h₂]; rfl
  · rw [eq_ofNat_of_toNat_eq h₃]; rfl
  · rw [eq_ofNat_of_toNat_eq h₄]; rfl
  · rw [h₅]; rfl
  · rw [h₆]; rfl
  · rw [h₇]; rfl
  · exact unescape_hex4 (by omega) rest
  · -- the two units give the character back
    have hlow : c.toNat - 0x10000 < 0x100000 := by omega
    have hsum : 0x10000 + (0xD800 + (c.toNat - 0x10000) / 0x400 - 0xD800) * 0x400 +
        (0xDC00 + (c.toNat - 0x10000) % 0x400 - 0xDC00) = c.toNat := by omega
    unfold unescape
    rw [append_assoc, readUnit_hex4 _ _ (by omega)]
    dsimp only
    rw [if_neg (by omega), readUnit_hex4 _ _ (by omega), Option.map_some, hsum, Char.ofNat_toNat]
  · exact unescape_self h₂ rest

theorem escape_append_ne (c : Char) (rest rest' : List Char) : escape c ++ rest ≠ '"' :: rest' := by
  unfold escape
  split_ifs <;> simp_all

theorem readable_escape : Readable escape '"' :=
  Readable.of_decoder unescape unescape_escape escape_append_ne

theorem encodeString_append_inj {a b : String} {r r' : List Char}
    (h : encodeString a ++ r = encodeString b ++ r') : a = b ∧ r = r' :=
  quoted_append_inj readable_escape h

theorem isDigit_of_mem_repr {n : ℕ} {c : Char} (h : c ∈ n.repr.toList) : c.isDigit = true := by
  rw [Nat.toList_repr] at h
  exact Nat.isDigit_of_mem_toDigits (by decide) (by decide) h

def Ended (text : List Char) : Prop := ∀ c ∈ text.head?, c.isDigit = false

theorem Ended.takeWhile {digits rest : List Char} (h : Ended rest)
    (hdigits : ∀ c ∈ digits, c.isDigit = true) :
    (digits ++ rest).takeWhile Char.isDigit = digits := by
  rw [takeWhile_append_of_pos hdigits]
  cases rest with
  | nil => simp
  | cons c rest => simp [h c rfl]

theorem repr_append_inj {m n : ℕ} {r r' : List Char} (hr : Ended r) (hr' : Ended r')
    (h : m.repr.toList ++ r = n.repr.toList ++ r') : m = n ∧ r = r' := by
  have hdigits : m.repr.toList = n.repr.toList := by
    calc m.repr.toList
        = (m.repr.toList ++ r).takeWhile Char.isDigit := (hr.takeWhile fun _ => isDigit_of_mem_repr).symm
      _ = (n.repr.toList ++ r').takeWhile Char.isDigit := by rw [h]
      _ = n.repr.toList := hr'.takeWhile fun _ => isDigit_of_mem_repr
  have hmn : m = n := by
    rw [Nat.toList_repr, Nat.toList_repr] at hdigits
    rw [← Nat.ofDigitChars_ten_toDigits (n := m), hdigits, Nat.ofDigitChars_ten_toDigits]
  subst hmn
  exact ⟨rfl, append_cancel_left h⟩

theorem toString_toList (n : ℤ) :
    (toString n).toList = if 0 ≤ n then n.natAbs.repr.toList else '-' :: n.natAbs.repr.toList := by
  cases n with
  | ofNat n | negSucc n => simp [toString, Int.repr]

theorem head_repr (n : ℕ) : ∃ c rest, n.repr.toList = c :: rest ∧ c.isDigit = true := by
  cases h : n.repr.toList with
  | nil =>
    rw [Nat.toList_repr] at h
    exact absurd h Nat.toDigits_ne_nil
  | cons c rest => exact ⟨c, rest, rfl, isDigit_of_mem_repr (by rw [h]; exact mem_cons_self)⟩

theorem toString_append_inj {m n : ℤ} {r r' : List Char} (hr : Ended r) (hr' : Ended r')
    (h : (toString m).toList ++ r = (toString n).toList ++ r') : m = n ∧ r = r' := by
  rw [toString_toList, toString_toList] at h
  obtain ⟨c, cs, hm, hc⟩ := head_repr m.natAbs
  obtain ⟨d, ds, hn, hd⟩ := head_repr n.natAbs
  by_cases h₀ : 0 ≤ m <;> by_cases h₁ : 0 ≤ n
  · rw [if_pos h₀, if_pos h₁] at h
    obtain ⟨hmn, hrest⟩ := repr_append_inj hr hr' h
    exact ⟨by omega, hrest⟩
  · rw [if_pos h₀, if_neg h₁, hm] at h
    simp only [cons_append, List.cons.injEq] at h
    rw [h.1] at hc
    exact absurd hc (by decide)
  · rw [if_neg h₀, if_pos h₁, hn] at h
    simp only [cons_append, List.cons.injEq] at h
    rw [← h.1] at hd
    exact absurd hd (by decide)
  · rw [if_neg h₀, if_neg h₁, cons_append, cons_append, List.cons.injEq] at h
    obtain ⟨hmn, hrest⟩ := repr_append_inj hr hr' h.2
    exact ⟨by omega, hrest⟩

theorem head_toString (n : ℤ) :
    ∃ c rest, (toString n).toList = c :: rest ∧ (c.isDigit = true ∨ c = '-') := by
  obtain ⟨c, cs, hn, hc⟩ := head_repr n.natAbs
  rw [toString_toList]
  split
  · exact ⟨c, cs, hn, .inl hc⟩
  · exact ⟨'-', _, rfl, .inr rfl⟩

/-! ### Values are read back -/

def opening : Json → ℕ
  | .null => 0
  | .bool true => 1
  | .bool false => 2
  | .int _ => 3
  | .str _ => 4
  | .list _ => 5
  | .object _ => 6

def opened (c : Char) : ℕ :=
  if c = 'n' then 0
  else if c = 't' then 1
  else if c = 'f' then 2
  else if c.isDigit = true ∨ c = '-' then 3
  else if c = '"' then 4
  else if c = '[' then 5
  else if c = '\x7b' then 6
  else 7

theorem opened_of_digit {c : Char} (h : c.isDigit = true ∨ c = '-') : opened c = 3 := by
  unfold opened
  have hne : ∀ d : Char, d.isDigit = false → d ≠ '-' → c ≠ d := by
    rintro d hd hminus rfl
    rcases h with h | h
    · rw [h] at hd; cases hd
    · exact hminus h
  rw [if_neg (hne 'n' (by decide) (by decide)), if_neg (hne 't' (by decide) (by decide)),
    if_neg (hne 'f' (by decide) (by decide)), if_pos h]

theorem encode_head (a : Json) : ∃ c rest, encode a = c :: rest ∧ opened c = opening a := by
  cases a with
  | null => exact ⟨'n', _, rfl, by decide⟩
  | bool b => cases b <;> exact ⟨_, _, rfl, by decide⟩
  | int n =>
    obtain ⟨c, rest, hn, hc⟩ := head_toString n
    exact ⟨c, rest, hn, opened_of_digit hc⟩
  | str text => exact ⟨'"', _, rfl, rfl⟩
  | list items => cases items <;> exact ⟨'[', _, rfl, rfl⟩
  | object members =>
    rcases members with _ | ⟨⟨key, value⟩, rest⟩ <;> exact ⟨'\x7b', _, rfl, rfl⟩

inductive Alike : Json → Json → Prop
  | null : Alike .null .null
  | bool (b : Bool) : Alike (.bool b) (.bool b)
  | int (m n : ℤ) : Alike (.int m) (.int n)
  | str (text text' : String) : Alike (.str text) (.str text')
  | list (items items' : List Json) : Alike (.list items) (.list items')
  | object (members members' : List (String × Json)) : Alike (.object members) (.object members')

theorem alike_of_opening {a b : Json} (h : opening a = opening b) : Alike a b := by
  rcases a with _ | (_ | _) | _ | _ | _ | _ <;> rcases b with _ | (_ | _) | _ | _ | _ | _ <;>
    first | constructor | cases h

theorem alike_of_encode {a b : Json} {r r' : List Char} (h : encode a ++ r = encode b ++ r') :
    Alike a b := by
  obtain ⟨c, cs, ha, hc⟩ := encode_head a
  obtain ⟨d, ds, hb, hd⟩ := encode_head b
  rw [ha, hb, cons_append, cons_append, List.cons.injEq] at h
  exact alike_of_opening (by rw [← hc, ← hd, h.1])

theorem encode_append_ne (a : Json) (r r' : List Char) : encode a ++ r ≠ ']' :: r' := by
  intro h
  obtain ⟨c, cs, ha, hc⟩ := encode_head a
  rw [ha, cons_append, List.cons.injEq] at h
  rw [h.1] at hc
  have hlt : opening a < 7 := by unfold opening; split <;> decide
  have hseven : opened ']' = 7 := by decide
  omega

theorem ended_encodeItems (items : List Json) (r : List Char) : Ended (encodeItems items ++ r) := by
  cases items <;> rintro _ ⟨⟩ <;> decide

variable (members : List (String × Json))

theorem ended_encodeMembers (r : List Char) :
    Ended (encodeMembers members ++ r) := by
  rcases members with _ | ⟨⟨key, value⟩, rest⟩ <;> rintro _ ⟨⟩ <;> decide

mutual

theorem encode_append_inj (a b : Json) {r r' : List Char} (hr : Ended r) (hr' : Ended r')
    (h : encode a ++ r = encode b ++ r') : a = b ∧ r = r' := by
  match a, b, alike_of_encode h with
  | .null, .null, _ | .bool b, .bool _, .bool _ => exact ⟨rfl, append_cancel_left h⟩
  | .int m, .int n, _ =>
    obtain ⟨hmn, hrest⟩ := toString_append_inj hr hr' h
    exact ⟨by rw [hmn], hrest⟩
  | .str text, .str text', _ =>
    obtain ⟨htext, hrest⟩ := encodeString_append_inj h
    exact ⟨by rw [htext], hrest⟩
  | .list [], .list [], _ => exact ⟨rfl, append_cancel_left h⟩
  | .list [], .list (item :: rest), _ =>
    simp only [encode, cons_append, append_assoc, List.cons.injEq, true_and,
      nil_append] at h
    exact absurd h.symm (encode_append_ne _ _ _)
  | .list (item :: rest), .list [], _ =>
    simp only [encode, cons_append, append_assoc, List.cons.injEq, true_and,
      nil_append] at h
    exact absurd h (encode_append_ne _ _ _)
  | .list (item :: rest), .list (item' :: rest'), _ =>
    simp only [encode, cons_append, append_assoc, List.cons.injEq, true_and] at h
    obtain ⟨hitem, h₁⟩ := encode_append_inj item item' (ended_encodeItems _ _)
      (ended_encodeItems _ _) h
    obtain ⟨hrest, h₂⟩ := encodeItems_append_inj rest rest' h₁
    exact ⟨by rw [hitem, hrest], h₂⟩
  | .object [], .object [], _ => exact ⟨rfl, append_cancel_left h⟩
  | .object [], .object ((key, value) :: rest), _ | .object ((key, value) :: rest), .object [], _ =>
    simp [encode, encodeString] at h
  | .object ((key, value) :: rest), .object ((key', value') :: rest'), _ =>
    simp only [encode, cons_append, append_assoc, List.cons.injEq, true_and] at h
    obtain ⟨hkey, h₁⟩ := encodeString_append_inj h
    obtain ⟨hvalue, h₂⟩ := encode_append_inj value value' (ended_encodeMembers _ _)
      (ended_encodeMembers _ _) (List.cons.inj h₁).2
    obtain ⟨hrest, h₃⟩ := encodeMembers_append_inj rest rest' h₂
    exact ⟨by rw [hkey, hvalue, hrest], h₃⟩

theorem encodeItems_append_inj (as bs : List Json) {r r' : List Char}
    (h : encodeItems as ++ r = encodeItems bs ++ r') : as = bs ∧ r = r' := by
  match as, bs with
  | [], [] => exact ⟨rfl, append_cancel_left h⟩
  | [], item :: rest | item :: rest, [] => simp [encodeItems] at h
  | item :: rest, item' :: rest' =>
    simp only [encodeItems, cons_append, append_assoc, List.cons.injEq, true_and] at h
    obtain ⟨hitem, h₁⟩ := encode_append_inj item item' (ended_encodeItems _ _)
      (ended_encodeItems _ _) h
    obtain ⟨hrest, h₂⟩ := encodeItems_append_inj rest rest' h₁
    exact ⟨by rw [hitem, hrest], h₂⟩

theorem encodeMembers_append_inj (as bs : List (String × Json)) {r r' : List Char}
    (h : encodeMembers as ++ r = encodeMembers bs ++ r') : as = bs ∧ r = r' := by
  match as, bs with
  | [], [] => exact ⟨rfl, append_cancel_left h⟩
  | [], (key, value) :: rest | (key, value) :: rest, [] => simp [encodeMembers] at h
  | (key, value) :: rest, (key', value') :: rest' =>
    simp only [encodeMembers, cons_append, append_assoc, List.cons.injEq, true_and] at h
    obtain ⟨hkey, h₁⟩ := encodeString_append_inj h
    obtain ⟨hvalue, h₂⟩ := encode_append_inj value value' (ended_encodeMembers _ _)
      (ended_encodeMembers _ _) (List.cons.inj h₁).2
    obtain ⟨hrest, h₃⟩ := encodeMembers_append_inj rest rest' h₂
    exact ⟨by rw [hkey, hvalue, hrest], h₃⟩

end

theorem encode_injective : Function.Injective encode := by
  intro a b h
  have hended : Ended [] := by rintro _ ⟨⟩
  exact (encode_append_inj a b hended hended (by rw [h])).1

/-! ### The order of keys -/

theorem sortMembers_eq_map :
    sortMembers members = members.map fun member => (member.1, member.2.sort) := by
  induction members with
  | nil => rfl
  | cons member rest ih => rw [sortMembers, ih, map_cons]

@[simp] theorem sort_str (text : String) : sort (.str text) = .str text := rfl

@[simp] theorem sort_int (n : ℤ) : sort (.int n) = .int n := rfl

@[simp] theorem sort_bool (b : Bool) : sort (.bool b) = .bool b := rfl

theorem sort_object : sort (.object members) =
    .object ((members.map fun member => (member.1, member.2.sort)).insertionSort KeyLe) := by
  rw [sort, sortMembers_eq_map]

theorem perm_of_sort_eq {members members' : List (String × Json)}
    (h : sort (.object members) = sort (.object members')) :
    (members.map fun member => (member.1, member.2.sort)).Perm
      (members'.map fun member => (member.1, member.2.sort)) := by
  rw [sort_object, sort_object, Json.object.injEq] at h
  have hperm := perm_insertionSort KeyLe (members.map fun member => (member.1, member.2.sort))
  rw [h] at hperm
  exact hperm.symm.trans (perm_insertionSort KeyLe _)

end Json

/-- The members of objects in another order. -/
inductive Reordered : Json → Json → Prop
  | refl (a : Json) : Reordered a a
  | trans {a b c : Json} : Reordered a b → Reordered b c → Reordered a c
  | item {a b : Json} (front rest : List Json) :
      Reordered a b → Reordered (.list (front ++ a :: rest)) (.list (front ++ b :: rest))
  | member {a b : Json} (front : List (String × Json)) (key : String)
      (rest : List (String × Json)) :
      Reordered a b →
        Reordered (.object (front ++ (key, a) :: rest)) (.object (front ++ (key, b) :: rest))
  | keys {members members' : List (String × Json)} (hkeys : (members.map Prod.fst).Nodup) :
      members.Perm members' → Reordered (.object members) (.object members')

def canonicalJson (value : Json) : String := String.ofList value.sort.encode

theorem sort_eq_of_canonicalJson {a b : Json} (h : canonicalJson a = canonicalJson b) :
    a.sort = b.sort :=
  Json.encode_injective (String.ofList_injective h)

end Api
