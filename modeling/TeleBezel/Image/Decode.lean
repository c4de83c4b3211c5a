import TeleBezel.Image.RoundTrip

/-!
# The decoder of the renderer

`Decode` of `backend-media/internal/tbi/tbi.go` reads a whole stream and checks each operation before
it executes it. The bodies that it accepts are those that a list of valid operations writes.
-/

open Word Lz List

namespace Tbi

structure Header where
  bits : ℕ
  shape : ℕ
  colors : ℕ
  width : ℕ
  height : ℕ
  canvasWidth : ℕ
  canvasHeight : ℕ
  tag : ℕ
  crc : ℕ
  palette : List UInt8

def maxCanvas : ℕ := 1024

def maxBytes : ℕ := 1 <<< 20

def word16 (stream : List UInt8) (i : ℕ) : ℕ := little16 (stream.getD i 0) (stream.getD (i + 1) 0)

def word32 (stream : List UInt8) (i : ℕ) : ℕ :=
  little32 (stream.getD i 0) (stream.getD (i + 1) 0) (stream.getD (i + 2) 0) (stream.getD (i + 3) 0)

def parseHeader (stream : List UInt8) : Header where
  bits := (stream.getD 3 0).toNat
  shape := (stream.getD 4 0).toNat
  colors := (stream.getD 5 0).toNat
  width := word16 stream 6
  height := word16 stream 8
  canvasWidth := word16 stream 10
  canvasHeight := word16 stream 12
  tag := word32 stream 14
  crc := word32 stream 18
  palette := (stream.drop headerSize).take (stream.getD 5 0).toNat

def Header.size (header : Header) : ℤ :=
  Tbi.size header.bits header.shape header.width header.height header.canvasWidth
    header.canvasHeight

/-- The loop over the body, which takes at least a byte in each round; `out` is decoded so far. -/
def decodeBody (size : ℕ) : ℕ → List UInt8 → List UInt8 → Except String (List UInt8)
  | _, [], out => .ok out
  | 0, _ :: _, _ => .error "bad data"
  | fuel + 1, op :: body, out =>
    if op < 0x80 then
      let count := op.toNat + 1
      if body.length < count ∨ size < out.length + count then .error "bad literal"
      else decodeBody size fuel (body.drop count) (out ++ body.take count)
    else if op < 0xC0 then
      let count := (op &&& 0x3F).toNat + 3
      match body with
      | [] => .error "bad repeat"
      | value :: body =>
        if size < out.length + count then .error "bad repeat"
        else decodeBody size fuel body (out ++ List.replicate count value)
    else
      let count := (op &&& 0x3F).toNat + 3
      match body with
      | low :: high :: body =>
        let distance := little16 low high
        if distance = 0 ∨ out.length < distance ∨ size < out.length + count then
          .error "bad reference"
        else decodeBody size fuel body (copyBack distance count out)
      | _ => .error "bad reference"

def decode (stream : List UInt8) : Except String (Header × List UInt8) :=
  if stream.length < headerSize ∨ stream.getD 0 0 ≠ 0x54 ∨ stream.getD 1 0 ≠ 0x42 ∨
      stream.getD 2 0 ≠ 1 then .error "bad header"
  else
    let header := parseHeader stream
    if (header.bits ≠ 1 ∧ header.bits ≠ 2 ∧ header.bits ≠ 4) ∨ 1 < header.shape ∨
        header.colors < 1 ∨ 1 <<< header.bits < header.colors ∨ header.width = 0 ∨
        header.height = 0 ∨ header.canvasWidth < header.width ∨
        header.canvasHeight < header.height ∨ maxCanvas < header.canvasWidth ∨
        maxCanvas < header.canvasHeight ∨ stream.length < headerSize + header.colors then
      .error "bad header"
    else if maxBytes < header.size then .error "bad header"
    else
      let body := stream.drop (headerSize + header.colors)
      match decodeBody header.size.toNat body.length body [] with
      | .error message => .error message
      | .ok out =>
        if (out.length : ℤ) ≠ header.size ∨ (Watch.tbImageCrc 0 out).toNat ≠ header.crc then
          .error "bad data"
        else .ok (header, out)

section Body

variable {op : UInt8}

theorem eq_run_code (h : ¬ op < 0x80) (h' : op < 0xC0) :
    UInt8.ofNat (0x80 ||| (op &&& 0x3F).toNat) = op ∧ (op &&& 0x3F).toNat + 3 ≤ 66 := by
  have key : ∀ m : Fin 256, ¬ UInt8.ofNat m < 0x80 → UInt8.ofNat m < 0xC0 →
      UInt8.ofNat (0x80 ||| (UInt8.ofNat m &&& 0x3F).toNat) = UInt8.ofNat m ∧
        (UInt8.ofNat m &&& 0x3F).toNat + 3 ≤ 66 := by decide +kernel
  have hop := key ⟨op.toNat, op.toNat_lt⟩
  simp only [UInt8.ofNat_toNat] at hop
  exact hop h h'

theorem eq_copy_code (h : ¬ op < 0xC0) :
    UInt8.ofNat (0xC0 ||| (op &&& 0x3F).toNat) = op ∧ (op &&& 0x3F).toNat + 3 ≤ 66 := by
  have key : ∀ m : Fin 256, ¬ UInt8.ofNat m < 0xC0 →
      UInt8.ofNat (0xC0 ||| (UInt8.ofNat m &&& 0x3F).toNat) = UInt8.ofNat m ∧
        (UInt8.ofNat m &&& 0x3F).toNat + 3 ≤ 66 := by decide +kernel
  have hop := key ⟨op.toNat, op.toNat_lt⟩
  simp only [UInt8.ofNat_toNat] at hop
  exact hop h

theorem toNat_lt_of_literal (h : op < 0x80) : op.toNat + 1 ≤ 128 := by
  have hlt : op.toNat < 128 := h
  omega

structure Written (size : ℕ) (out : List UInt8) (ops : List (Op UInt8)) : Prop where
  format : ∀ op ∈ ops, InFormat op
  valid : ValidFrom out ops
  room : (expand out ops).length ≤ size

variable {size : ℕ} {out : List UInt8}

theorem Written.cons {op : Op UInt8} {ops : List (Op UInt8)} (hformat : InFormat op)
    (hvalid : op.Valid out) (h : Written size (op.apply out) ops) : Written size out (op :: ops) where
  format := by
    rintro op' (_ | ⟨_, hmem⟩)
    · exact hformat
    · exact h.format op' hmem
  valid := ⟨hvalid, h.valid⟩
  room := h.room

theorem literal_bytes {body : List UInt8} (hop : op < 0x80) (hlen : op.toNat + 1 ≤ body.length) :
    op :: body = opBytes (.literal (body.take (op.toNat + 1))) ++ body.drop (op.toNat + 1) ∧
      InFormat (.literal (body.take (op.toNat + 1))) := by
  have htake : (body.take (op.toNat + 1)).length = op.toNat + 1 := by
    rw [length_take]
    omega
  constructor
  · simp [opBytes, htake]
  · exact ⟨by omega, by rw [htake]; exact toNat_lt_of_literal hop⟩

theorem run_bytes (h : ¬ op < 0x80) (h' : op < 0xC0) (value : UInt8) (body : List UInt8) :
    op :: value :: body = opBytes (.run ((op &&& 0x3F).toNat + 3) value) ++ body ∧
      InFormat (.run ((op &&& 0x3F).toNat + 3) value) := by
  obtain ⟨hcode, hle⟩ := eq_run_code h h'
  constructor
  · rw [opBytes, Nat.add_sub_cancel, hcode]
    rfl
  · exact ⟨by omega, hle⟩

theorem copy_bytes (h : ¬ op < 0xC0) (low high : UInt8) (body : List UInt8) :
    op :: low :: high :: body =
        opBytes (.copy ((op &&& 0x3F).toNat + 3) (little16 low high)) ++ body ∧
      InFormat (.copy ((op &&& 0x3F).toNat + 3) (little16 low high)) := by
  obtain ⟨hcode, hle⟩ := eq_copy_code h
  have hlow : UInt8.ofNat (little16 low high) = low := by
    rw [little16_eq]
    apply UInt8.toNat_inj.mp
    rw [UInt8.toNat_ofNat']
    have := low.toNat_lt
    omega
  have hhigh : UInt8.ofNat (little16 low high >>> 8) = high := by
    rw [little16_eq, Nat.shiftRight_eq_div_pow]
    apply UInt8.toNat_inj.mp
    rw [UInt8.toNat_ofNat']
    have := low.toNat_lt
    have := high.toNat_lt
    omega
  constructor
  · rw [opBytes, Nat.add_sub_cancel, hcode, hlow, hhigh]
    rfl
  · exact ⟨by omega, hle, little16_lt low high⟩

theorem exists_ops_of_decodeBody (fuel : ℕ) :
    ∀ {body out result : List UInt8}, out.length ≤ size →
      decodeBody size fuel body out = .ok result →
      ∃ ops, body = bodyBytes ops ∧ Written size out ops ∧ result = expand out ops := by
  induction fuel with
  | zero =>
    intro body out result hle h
    cases body with
    | nil =>
      obtain rfl : out = result := Except.ok.inj h
      exact ⟨[], rfl, ⟨by simp, trivial, hle⟩, rfl⟩
    | cons op body => cases h
  | succ fuel ih =>
    intro body out result hle h
    cases body with
    | nil =>
      obtain rfl : out = result := Except.ok.inj h
      exact ⟨[], rfl, ⟨by simp, trivial, hle⟩, rfl⟩
    | cons op body =>
      rw [decodeBody] at h
      dsimp only at h
      by_cases hliteral : op < 0x80
      · rw [if_pos hliteral] at h
        split_ifs at h with hrefuse
        have hcount : op.toNat + 1 ≤ body.length := by omega
        obtain ⟨hbytes, hformat⟩ := literal_bytes hliteral hcount
        have hroom : (out ++ body.take (op.toNat + 1)).length ≤ size := by
          rw [length_append, length_take]
          omega
        obtain ⟨ops, hops, hwritten, rfl⟩ := ih hroom h
        refine ⟨_ :: ops, ?_, hwritten.cons hformat ?_, rfl⟩
        · rw [hbytes, hops]
          rfl
        · exact ne_nil_of_length_pos (by rw [length_take]; omega)
      rw [if_neg hliteral] at h
      by_cases hrun : op < 0xC0
      · rw [if_pos hrun] at h
        cases body with
        | nil => cases h
        | cons value body =>
          split_ifs at h with hrefuse
          obtain ⟨hbytes, hformat⟩ := run_bytes hliteral hrun value body
          have hroom : (out ++ List.replicate ((op &&& 0x3F).toNat + 3) value).length ≤ size := by
            rw [length_append, length_replicate]
            omega
          obtain ⟨ops, hops, hwritten, rfl⟩ := ih hroom h
          refine ⟨_ :: ops, ?_, hwritten.cons hformat ?_, rfl⟩
          · rw [hbytes, hops]
            rfl
          · exact Nat.succ_pos _
      · rw [if_neg hrun] at h
        match body, h with
        | [], h => cases h
        | [_], h => cases h
        | low :: high :: body, h =>
          dsimp only at h
          split_ifs at h with hrefuse
          rw [not_or, not_or] at hrefuse
          obtain ⟨hbytes, hformat⟩ := copy_bytes hrun low high body
          have hpos : 0 < little16 low high := Nat.pos_of_ne_zero hrefuse.1
          have hvalid : (Op.copy ((op &&& 0x3F).toNat + 3) (little16 low high)).Valid out :=
            ⟨Nat.succ_pos _, hpos, Nat.le_of_not_lt hrefuse.2.1⟩
          have hroom : (copyBack (little16 low high) ((op &&& 0x3F).toNat + 3) out).length ≤ size := by
            rw [length_copyBack hpos _ hvalid.2.2]
            omega
          obtain ⟨ops, hops, hwritten, rfl⟩ := ih hroom h
          refine ⟨_ :: ops, ?_, hwritten.cons hformat hvalid, rfl⟩
          rw [hbytes, hops]
          rfl

theorem decodeBody_opBytes {op : Op UInt8} (hformat : InFormat op) (hvalid : op.Valid out)
    (hroom : out.length + op.count ≤ size) (rest : List UInt8) (fuel : ℕ) :
    decodeBody size (fuel + 1) (opBytes op ++ rest) out =
      decodeBody size fuel rest (op.apply out) := by
  cases op with
  | literal symbols =>
    obtain ⟨hlt, hcount⟩ := literal_code hformat.1 hformat.2
    have hfits : ¬ ((symbols ++ rest).length < symbols.length ∨ size < out.length + symbols.length) := by
      have := hroom
      simp only [Op.count] at this
      rw [length_append]
      omega
    rw [opBytes, cons_append, decodeBody]
    rw [if_pos hlt, hcount, if_neg hfits, drop_left, take_left]
    rfl
  | run count symbol =>
    obtain ⟨hge, hlt, hcount⟩ := run_code hformat.1 hformat.2
    have hfits : ¬ size < out.length + count := Nat.not_lt.mpr hroom
    rw [opBytes, cons_append, decodeBody]
    dsimp only [cons_append, nil_append]
    rw [if_neg hge, if_pos hlt, hcount, if_neg hfits]
    rfl
  | copy count distance =>
    obtain ⟨hge, hge', hcount⟩ := copy_code hformat.1 hformat.2.1
    obtain ⟨-, hpos, hle⟩ := hvalid
    have hdistance := little16_bytes16 hformat.2.2
    have hfits : ¬ (distance = 0 ∨ out.length < distance ∨ size < out.length + count) := by
      have := hroom
      simp only [Op.count] at this
      omega
    rw [opBytes, cons_append, decodeBody]
    dsimp only [cons_append, nil_append]
    rw [if_neg hge, if_neg hge', hcount, hdistance, if_neg hfits]
    rfl

theorem decodeBody_bodyBytes (ops : List (Op UInt8)) :
    ∀ {out : List UInt8} {fuel : ℕ}, Written size out ops → (bodyBytes ops).length ≤ fuel →
      decodeBody size fuel (bodyBytes ops) out = .ok (expand out ops) := by
  induction ops with
  | nil =>
    intro out fuel _ _
    cases fuel with
    | zero => rfl
    | succ fuel => rfl
  | cons op ops ih =>
    intro out fuel h hfuel
    obtain ⟨hformat, hvalid, hroom⟩ := h
    have hcount : out.length + op.count ≤ size := by
      have hle := length_le_expand hvalid.2
      rw [Op.length_apply hvalid.1] at hle
      exact hle.trans hroom
    have hbytes : 0 < (opBytes op).length := by
      cases op <;> simp [opBytes]
    rw [bodyBytes_cons, length_append] at hfuel
    obtain ⟨fuel, rfl⟩ : ∃ more, fuel = more + 1 := ⟨fuel - 1, by omega⟩
    rw [bodyBytes_cons, decodeBody_opBytes (hformat op mem_cons_self) hvalid.1 hcount,
      ih ⟨fun op' hmem => hformat op' (mem_cons_of_mem _ hmem), hvalid.2, hroom⟩ (by omega)]
    rfl

theorem decodeBody_eq_ok_iff {body result : List UInt8} :
    decodeBody size body.length body [] = .ok result ↔
      ∃ ops, body = bodyBytes ops ∧ Written size [] ops ∧ result = expand [] ops := by
  constructor
  · exact exists_ops_of_decodeBody body.length (Nat.zero_le size)
  · rintro ⟨ops, rfl, hwritten, rfl⟩
    exact decodeBody_bodyBytes ops hwritten le_rfl

end Body

end Tbi
