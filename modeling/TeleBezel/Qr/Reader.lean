import TeleBezel.Qr.Layout

/-!
# From the encoder to a reader and back

A reader takes the format bits, takes the mask off the data modules, packs their bits into
codewords, deals these out to the blocks and parses the bytes. What it reads from the matrix of a
text is the text; each block with its parity is a codeword, both copies of the format bits are,
and the data meet no function pattern.
-/

open BinaryPoly BitString Bitmap Columns Polynomial ReedSolomon

namespace Qr

/-! ## The reader -/

variable (modules : List (List Bool))

/-- The version, by the size. -/
def readVersion : ℕ := (modules.length - 17) / 4

/-- The number at the places of a copy of the format. -/
def readFormat (places : List (ℕ × ℕ)) : ℕ :=
  valueOf (places.reverse.map fun place => cell modules place.1 place.2)

/-- The format, unmasked. -/
def formatCodeword : ℕ := readFormat modules formatFirst ^^^ 0x5412

/-- The mask of the symbol. -/
def readMask : ℕ := (formatCodeword modules >>> 10) &&& 7

/-- The level of the symbol. -/
def readLevel : ℕ := (formatCodeword modules >>> 13) &&& 3

/-- The codewords along the data modules, unmasked. -/
def readCodewords : List UInt8 :=
  pack ((dataModules (readVersion modules)).map fun place =>
    cell modules place.1 place.2 ^^ masks (readMask modules) place.1 place.2)

/-- What a reader makes of the symbol. -/
def read : Option (List UInt8) :=
  if readLevel modules = 0b00 then
    parse (readVersion modules) (dealData (readVersion modules) (readCodewords modules)).flatten
  else none

/-- The codeword of level M and a mask: these in its highest five bits, and a multiple of the
generator of the code. -/
structure FormatCodeword (mask codeword : ℕ) : Prop where
  length : codeword < 2 ^ 15
  message : codeword >>> 10 = (0b00 <<< 3) ||| mask
  divides : binaryPoly 0x537 ∣ binaryPoly codeword

/-- The symbol is a good one, and it carries the text. -/
structure Carries (bytes : List UInt8) (version mask : ℕ) (modules : List (List Bool)) : Prop where
  square : Square (17 + 4 * version) modules
  read : read modules = some bytes
  /-- The blocks have the sizes of the version's table. -/
  sizes : (dealData version (readCodewords modules)).map List.length = sizesFor version ∧
    (dealParity version (readCodewords modules)).map List.length =
      List.replicate (sizesFor version).length (ecFor version)
  /-- Each block with its parity is a multiple of the generator, and all its syndromes vanish. -/
  parity : ∀ block ∈ (dealData version (readCodewords modules)).zip
      (dealParity version (readCodewords modules)),
    rootsProduct root (ecFor version) ∣ highFirst ((block.1 ++ block.2).map element) ∧
      ∀ i < ecFor version, (highFirst ((block.1 ++ block.2).map element)).eval (root ^ i) = 0
  /-- Both copies of the format bits are the codeword of level M and the mask. -/
  format : FormatCodeword mask (formatCodeword modules) ∧
    readFormat modules (formatSecond (17 + 4 * version)) = readFormat modules formatFirst
  /-- There is room for every bit of the codewords, in modules of their own. -/
  room : 8 * (interleave (encodeData bytes version) version).length ≤ (dataModules version).length ∧
    (dataModules version).Nodup
  /-- The data modules hold the bits of the codewords, flipped where the mask says so. -/
  data : ∀ bit (h : bit < (dataModules version).length),
    isFunction version (dataModules version)[bit].1 (dataModules version)[bit].2 = false ∧
      (cell modules (dataModules version)[bit].1 (dataModules version)[bit].2 ^^
        masks mask (dataModules version)[bit].1 (dataModules version)[bit].2) =
        streamBit (interleave (encodeData bytes version) version) bit
  /-- The function patterns are as they were before the data were placed. -/
  function : ∀ r < 17 + 4 * version, ∀ c < 17 + 4 * version, isFunction version r c = true →
    cell modules r c = cell (placeFormat (placeFunctionPatterns (emptyGrid (17 + 4 * version))
      version (17 + 4 * version)) mask (17 + 4 * version)).modules r c

section Chosen

theorem exists_mask_of_foldl (size : ℕ) (grid : Grid) (n : ℕ) :
    ∃ score, ∃ mask ≤ n, (List.range (n + 1)).foldl
      (fun best mask => better size best (candidate grid size mask)) none =
        some (score, candidate grid size mask) := by
  induction n with
  | zero => exact ⟨_, 0, le_rfl, rfl⟩
  | succ n ih =>
    obtain ⟨score, mask, hmask, hbest⟩ := ih
    rw [List.range_succ, List.foldl_append, List.foldl_cons, List.foldl_nil, hbest]
    simp only [better]
    split_ifs
    · exact ⟨_, n + 1, le_rfl, rfl⟩
    · exact ⟨score, mask, Nat.le_succ_of_le hmask, rfl⟩

theorem versionFor_spec {bytes : List UInt8} {version : ℕ} (h : versionFor bytes = some version) :
    (1 ≤ version ∧ version ≤ 10) ∧ Fits bytes version := by
  rw [versionFor, Option.map_eq_some_iff] at h
  obtain ⟨index, hfind, rfl⟩ := h
  have hfits := List.find?_some hfind
  have hmem := List.mem_range.1 (List.mem_of_find?_eq_some hfind)
  have hlength : versions.length = 10 := rfl
  exact ⟨by omega, of_decide_eq_true hfits⟩

/-- Every text that the largest version takes has a matrix. -/
theorem matrix_ok {bytes : List UInt8} (h : Fits bytes 10) : ∃ modules, matrix bytes = .ok modules := by
  rw [matrix]
  cases hversion : versionFor bytes with
  | none =>
    rw [versionFor, Option.map_eq_none_iff, List.find?_eq_none] at hversion
    exact absurd (decide_eq_true h) (hversion 9 (by decide))
  | some version => exact ⟨_, rfl⟩

theorem exists_candidate {bytes : List UInt8} {modules : List (List Bool)}
    (h : matrix bytes = .ok modules) :
    ∃ version mask, (1 ≤ version ∧ version ≤ 10) ∧ Fits bytes version ∧ mask < 8 ∧
      modules = candidate (base bytes version) (17 + 4 * version) mask := by
  rw [matrix] at h
  cases hversion : versionFor bytes with
  | none =>
    rw [hversion] at h
    exact absurd h (by simp)
  | some version =>
    obtain ⟨score, mask, hmask, hbest⟩ :=
      exists_mask_of_foldl (17 + 4 * version) (base bytes version) 7
    rw [hversion] at h
    simp only [hbest, Option.map_some, Option.getD_some, Except.ok.injEq] at h
    obtain ⟨hbounds, hfits⟩ := versionFor_spec hversion
    exact ⟨version, mask, hbounds, hfits, by omega, h.symm⟩

end Chosen

section Format

variable {mask : ℕ}

theorem bch_dvd {value generatorBits length : ℕ}
    (h : bch value generatorBits length =
      (value <<< length) ^^^ reduce generatorBits 32 (value <<< length)) :
    binaryPoly generatorBits ∣ binaryPoly (bch value generatorBits length) := by
  rw [h, binaryPoly_xor]
  exact binaryPoly_dvd_reduce ..

theorem formatCodeword_bch (hmask : mask < 8) : FormatCodeword mask (bch mask 0x537 10) where
  length := by interval_cases mask <;> decide
  message := by interval_cases mask <;> decide
  divides := by
    apply bch_dvd
    interval_cases mask <;> decide

theorem formatBits_lt (hmask : mask < 8) : formatBits mask < 2 ^ 15 := by
  interval_cases mask <;> decide

theorem formatBits_xor (hmask : mask < 8) : formatBits mask ^^^ 0x5412 = bch mask 0x537 10 := by
  interval_cases mask <;> decide

theorem format_places {version : ℕ} (hversion : 1 ≤ version ∧ version ≤ 10) (mask : ℕ) :
    Inside (17 + 4 * version) (format mask (17 + 4 * version)) ∧
      (∀ w ∈ format mask (17 + 4 * version), isFunction version w.1.1 w.1.2 = true) ∧
      ((format mask (17 + 4 * version)).map Prod.fst).Nodup := by
  have hplaces : (format mask (17 + 4 * version)).map Prod.fst =
      (format 0 (17 + 4 * version)).map Prod.fst := rfl
  have hall : ∀ place ∈ (format 0 (17 + 4 * version)).map Prod.fst,
      (place.1 < 17 + 4 * version ∧ place.2 < 17 + 4 * version) ∧
        isFunction version place.1 place.2 = true := by
    obtain ⟨hlow, hhigh⟩ := hversion
    interval_cases version <;> decide +kernel
  have hnodup : ((format 0 (17 + 4 * version)).map Prod.fst).Nodup := by
    obtain ⟨hlow, hhigh⟩ := hversion
    interval_cases version <;> decide +kernel
  rw [← hplaces] at hall
  exact ⟨fun w hw => (hall w.1 (List.mem_map_of_mem hw)).1,
    fun w hw => (hall w.1 (List.mem_map_of_mem hw)).2, hplaces ▸ hnodup⟩

theorem getElem?_format_first (mask size : ℕ) {i : ℕ} (hi : i < 15) :
    (format mask size)[if i < 8 then i else i + 15]? =
      some (formatFirst.getD i (0, 0), decide ((formatBits mask >>> i) &&& 1 = 1)) := by
  interval_cases i <;> rfl

theorem getElem?_format_second (mask size : ℕ) {i : ℕ} (hi : i < 15) :
    (format mask size)[if i < 8 then i + 15 else i]? =
      some ((formatSecond size).getD i (0, 0), decide ((formatBits mask >>> i) &&& 1 = 1)) := by
  interval_cases i <;> rfl

theorem readFormat_eq {modules : List (List Bool)} {places : List (ℕ × ℕ)} {bits : ℕ}
    (hbits : bits < 2 ^ 15) (hlength : places.length = 15)
    (hcell : ∀ i < 15, cell modules (places.getD i (0, 0)).1 (places.getD i (0, 0)).2 =
      decide ((bits >>> i) &&& 1 = 1)) : readFormat modules places = bits := by
  have hlist : (places.reverse.map fun place => cell modules place.1 place.2) = bitsOf 15 bits := by
    have hplaces : places = (List.range 15).map fun i => places.getD i (0, 0) := by
      apply List.ext_getElem
      · rw [hlength, List.length_map, List.length_range]
      · intro i h₁ h₂
        simp [List.getElem?_eq_getElem h₁]
    rw [hplaces, ← List.map_reverse, List.map_map, bitsOf_eq_map]
    refine List.map_congr_left fun i hi => ?_
    rw [List.mem_reverse, List.mem_range] at hi
    rw [Function.comp_apply, hcell i hi, beq_eq_decide]
  rw [readFormat, hlist, valueOf_bitsOf, Nat.mod_eq_of_lt hbits]

end Format

section Candidate

variable {bytes : List UInt8} {version mask : ℕ}

theorem base_modules (hversion : 1 ≤ version ∧ version ≤ 10) (bytes : List UInt8) :
    (base bytes version).modules =
      writeAll (placeFunctionPatterns (emptyGrid (17 + 4 * version)) version
          (17 + 4 * version)).modules
        (bitsAlong (interleave (encodeData bytes version) version) 0 (dataModules version)) := by
  rw [base, placeData_eq _ (by omega) (by omega)]
  congr 2
  refine List.filter_congr fun place hplace => ?_
  obtain ⟨hrow, hcolumn⟩ := lt_of_mem_zigzag hplace
  rw [reserved_eq_isFunction hversion hrow hcolumn]

variable (stream : List UInt8)

theorem mem_bitsAlong {places : List (ℕ × ℕ)} {bit : ℕ}
    (hbit : bit < places.length) : (places[bit], streamBit stream bit) ∈ bitsAlong stream 0 places := by
  rw [bitsAlong, List.mem_map]
  refine ⟨(places[bit], bit), ?_, rfl⟩
  rw [List.mk_mem_zipIdx_iff_getElem?]
  exact List.getElem?_eq_getElem hbit

theorem map_fst_bitsAlong (places : List (ℕ × ℕ)) :
    (bitsAlong stream 0 places).map Prod.fst = places := by
  rw [bitsAlong, List.map_map]
  exact List.zipIdx_map_fst 0 places

theorem inside_dataModules (version : ℕ) :
    ∀ place ∈ dataModules version, place.1 < 17 + 4 * version ∧ place.2 < 17 + 4 * version :=
  fun _ hplace => lt_of_mem_zigzag (List.mem_of_mem_filter hplace)

theorem inside_bitsAlong (version : ℕ) :
    Inside (17 + 4 * version) (bitsAlong stream 0 (dataModules version)) := by
  intro w hw
  have hmem : w.1 ∈ dataModules version := by
    rw [← map_fst_bitsAlong stream (dataModules version)]
    exact List.mem_map_of_mem hw
  exact inside_dataModules version w.1 hmem

theorem nodup_dataModules (version : ℕ) : (dataModules version).Nodup :=
  (nodup_zigzag (by omega)).filter _

theorem isFunction_dataModules {place : ℕ × ℕ} (h : place ∈ dataModules version) :
    isFunction version place.1 place.2 = false := by
  have := (List.mem_filter.1 h).2
  simpa using this

section

variable (hversion : 1 ≤ version ∧ version ≤ 10)
include hversion

theorem square_base (bytes : List UInt8) :
    Square (17 + 4 * version) (base bytes version).modules := by
  rw [base_modules hversion]
  exact (placeFunctionPatterns_spec hversion rfl).1.modules.writeAll _

section

variable (bytes : List UInt8) (mask : ℕ)

theorem square_masked :
    Square (17 + 4 * version) (applyMask (base bytes version) mask).modules :=
  (square_base hversion bytes).mapCells _

theorem cell_masked {r c : ℕ} (hr : r < 17 + 4 * version) (hc : c < 17 + 4 * version) :
    cell (applyMask (base bytes version) mask).modules r c =
      (cell (base bytes version).modules r c ^^ (!isFunction version r c && masks mask r c)) := by
  have hreserved : cell (base bytes version).reserved r c = isFunction version r c :=
    reserved_eq_isFunction hversion hr hc
  rw [applyMask, cell_mapCells (square_base hversion bytes) hr hc, hreserved]
  cases isFunction version r c <;> cases masks mask r c <;> simp

theorem cell_data {bit : ℕ} (hbit : bit < (dataModules version).length) :
    (cell (candidate (base bytes version) (17 + 4 * version) mask)
        (dataModules version)[bit].1 (dataModules version)[bit].2 ^^
      masks mask (dataModules version)[bit].1 (dataModules version)[bit].2) =
      streamBit (interleave (encodeData bytes version) version) bit := by
  set stream := interleave (encodeData bytes version) version
  have hmem := List.getElem_mem hbit
  obtain ⟨hr, hc⟩ := inside_dataModules version _ hmem
  have hfunction := isFunction_dataModules hmem
  obtain ⟨hinside, hformat, -⟩ := format_places hversion mask
  -- the format bits stay on function modules, and no other data module is this one
  have hplaced : cell (base bytes version).modules (dataModules version)[bit].1
      (dataModules version)[bit].2 = streamBit stream bit := by
    rw [base_modules hversion]
    refine cell_writeAll (placeFunctionPatterns_spec hversion rfl).1.modules
      (inside_bitsAlong stream version) ?_ (mem_bitsAlong stream hbit)
    rw [map_fst_bitsAlong]
    exact nodup_dataModules version
  have hkept : cell (candidate (base bytes version) (17 + 4 * version) mask)
      (dataModules version)[bit].1 (dataModules version)[bit].2 =
      cell (applyMask (base bytes version) mask).modules
        (dataModules version)[bit].1 (dataModules version)[bit].2 := by
    refine cell_writeAll_of_not_mem (square_masked hversion bytes mask) hinside fun w hw heq => ?_
    have hw' := hformat w hw
    rw [heq, hfunction] at hw'
    exact absurd hw' (by decide)
  rw [hkept, cell_masked hversion bytes mask hr hc, hplaced, hfunction]
  cases masks mask (dataModules version)[bit].1 (dataModules version)[bit].2 <;> simp

theorem cell_function {r c : ℕ} (hr : r < 17 + 4 * version) (hc : c < 17 + 4 * version)
    (hfunction : isFunction version r c = true) :
    cell (candidate (base bytes version) (17 + 4 * version) mask) r c =
      cell (placeFormat (placeFunctionPatterns (emptyGrid (17 + 4 * version))
        version (17 + 4 * version)) mask (17 + 4 * version)).modules r c := by
  obtain ⟨hinside, -, hnodup⟩ := format_places hversion mask
  have hpatterns := (placeFunctionPatterns_spec hversion rfl).1.modules
  rw [candidate, placeFormat, placeFormat]
  by_cases hwritten : ∃ w ∈ format mask (17 + 4 * version), w.1 = (r, c)
  · obtain ⟨⟨place, value⟩, hmem, rfl⟩ := hwritten
    rw [cell_writeAll (square_masked hversion bytes mask) hinside hnodup hmem,
      cell_writeAll hpatterns hinside hnodup hmem]
  · have hnot : ∀ w ∈ format mask (17 + 4 * version), w.1 ≠ (r, c) :=
      fun w hw heq => hwritten ⟨w, hw, heq⟩
    have hdata : ∀ w ∈ bitsAlong (interleave (encodeData bytes version) version) 0
        (dataModules version), w.1 ≠ (r, c) := by
      intro w hw heq
      have hmem : w.1 ∈ dataModules version := by
        rw [← map_fst_bitsAlong (interleave (encodeData bytes version) version)
          (dataModules version)]
        exact List.mem_map_of_mem hw
      have := isFunction_dataModules hmem
      rw [heq, hfunction] at this
      exact absurd this (by decide)
    rw [cell_writeAll_of_not_mem (square_masked hversion bytes mask) hinside hnot,
      cell_writeAll_of_not_mem hpatterns hinside hnot, cell_masked hversion bytes mask hr hc,
      hfunction, base_modules hversion,
      cell_writeAll_of_not_mem hpatterns (inside_bitsAlong _ version) hdata]
    simp

end

theorem readFormat_candidate (hmask : mask < 8) (bytes : List UInt8) :
    readFormat (candidate (base bytes version) (17 + 4 * version) mask) formatFirst =
        formatBits mask ∧
      readFormat (candidate (base bytes version) (17 + 4 * version) mask)
        (formatSecond (17 + 4 * version)) = formatBits mask := by
  obtain ⟨hinside, -, hnodup⟩ := format_places hversion mask
  have hcell {r c : ℕ} {value : Bool} (h : ((r, c), value) ∈ format mask (17 + 4 * version)) :
      cell (candidate (base bytes version) (17 + 4 * version) mask) r c = value :=
    cell_writeAll (square_masked hversion bytes mask) hinside hnodup h
  constructor
  · exact readFormat_eq (formatBits_lt hmask) rfl fun i hi =>
      hcell (List.mem_of_getElem? (getElem?_format_first mask _ hi))
  · exact readFormat_eq (formatBits_lt hmask) rfl fun i hi =>
      hcell (List.mem_of_getElem? (getElem?_format_second mask _ hi))

end

end Candidate

section Read

variable {bytes : List UInt8} {version mask : ℕ}

theorem map_streamBit (stream : List UInt8) {n : ℕ} (hn : 8 * stream.length ≤ n) :
    (List.range n).map (streamBit stream) =
      unpack stream ++ List.replicate (n - 8 * stream.length) false := by
  apply List.ext_getElem?
  intro k
  have hunpack := getElem?_unpack stream k
  have hshift : k >>> 3 = k / 8 := Nat.shiftRight_eq_div_pow k 3
  have hlow : k &&& 7 = k % 8 := Nat.and_two_pow_sub_one_eq_mod k 3
  rw [List.getElem?_append, length_unpack, List.getElem?_map]
  by_cases hk : k < 8 * stream.length
  · have hbyte : k / 8 < stream.length := by omega
    rw [if_pos hk, hunpack, List.getElem?_range (by omega), List.getElem?_eq_getElem hbyte,
      Option.map_some, Option.map_some, streamBit, hshift, hlow, List.getElem?_eq_getElem hbyte]
    simp only [beq_eq_decide]
  · have hbyte : stream.length ≤ k / 8 := by omega
    rw [if_neg hk, List.getElem?_replicate]
    by_cases hrange : k < n
    · rw [List.getElem?_range hrange, if_pos (by omega), Option.map_some, streamBit, hshift,
        List.getElem?_eq_none hbyte]
    · rw [List.getElem?_eq_none (by rw [List.length_range]; omega), if_neg (by omega),
        Option.map_none]

section

variable (hversion : 1 ≤ version ∧ version ≤ 10)
include hversion

theorem readMask_candidate (hmask : mask < 8) (bytes : List UInt8) :
    readMask (candidate (base bytes version) (17 + 4 * version) mask) = mask ∧
      readLevel (candidate (base bytes version) (17 + 4 * version) mask) = 0b00 := by
  rw [readMask, readLevel, formatCodeword, (readFormat_candidate hversion hmask bytes).1,
    formatBits_xor hmask]
  interval_cases mask <;> decide

theorem square_candidate (bytes : List UInt8) (mask : ℕ) :
    Square (17 + 4 * version) (candidate (base bytes version) (17 + 4 * version) mask) :=
  (square_masked hversion bytes mask).writeAll _

theorem readVersion_candidate (bytes : List UInt8)
    (mask : ℕ) : readVersion (candidate (base bytes version) (17 + 4 * version) mask) = version := by
  rw [readVersion, (square_candidate hversion bytes mask).height]
  omega

theorem length_stream (hfits : Fits bytes version) :
    8 * (interleave (encodeData bytes version) version).length ≤ (dataModules version).length := by
  rw [length_interleave hversion (length_encodeData hfits)]
  exact room hversion

theorem readCodewords_candidate (hmask : mask < 8) (hfits : Fits bytes version) :
    ∃ rest, readCodewords (candidate (base bytes version) (17 + 4 * version) mask) =
      interleave (encodeData bytes version) version ++ rest := by
  have hbits : ((dataModules version).map fun place =>
      cell (candidate (base bytes version) (17 + 4 * version) mask) place.1 place.2 ^^
        masks mask place.1 place.2) =
      (List.range (dataModules version).length).map
        (streamBit (interleave (encodeData bytes version) version)) := by
    apply List.ext_getElem
    · rw [List.length_map, List.length_map, List.length_range]
    · intro bit h₁ h₂
      rw [List.getElem_map, List.getElem_map, List.getElem_range]
      exact cell_data hversion bytes mask (by rwa [List.length_map] at h₁)
  rw [readCodewords, readVersion_candidate hversion, (readMask_candidate hversion hmask bytes).1,
    hbits, map_streamBit _ (length_stream hversion hfits), pack_unpack_append]
  exact ⟨_, rfl⟩

end

/-- The matrix of a text carries its bytes. -/
theorem matrix_carries {modules : List (List Bool)} (h : matrix bytes = .ok modules) :
    ∃ version mask, (1 ≤ version ∧ version ≤ 10) ∧ mask < 8 ∧
      Carries bytes version mask modules := by
  obtain ⟨version, mask, hversion, hfits, hmask, rfl⟩ := exists_candidate h
  refine ⟨version, mask, hversion, hmask, ?_⟩
  have hlength := length_encodeData hfits
  have hcut := cut_spec (sizesFor version) (hlength.trans (capacity_eq_sum version))
  obtain ⟨rest, hcodewords⟩ := readCodewords_candidate hversion hmask hfits
  have hdata := dealData_interleave hversion hlength rest
  have hparity := dealParity_interleave hversion hlength rest
  obtain ⟨hfirst, hsecond⟩ := readFormat_candidate hversion hmask bytes
  refine
    { square := square_candidate hversion bytes mask
      read := ?_
      sizes := ?_
      parity := ?_
      format := ?_
      room := ⟨length_stream hversion hfits, nodup_dataModules version⟩
      data := fun bit hbit =>
        ⟨isFunction_dataModules (List.getElem_mem hbit), cell_data hversion bytes mask hbit⟩
      function := fun r hr c hc hfunction => cell_function hversion bytes mask hr hc hfunction }
  · rw [read, if_pos (readMask_candidate hversion hmask bytes).2, readVersion_candidate hversion,
      hcodewords, hdata, hcut.2, parse_encodeData hversion.2 hfits]
  · rw [hcodewords, hdata, hparity]
    exact ⟨hcut.1, map_length_parity hversion hlength⟩
  · rw [hcodewords, hdata, hparity]
    intro block hblock
    obtain ⟨data, -, rfl⟩ : ∃ data ∈ cut (encodeData bytes version) (sizesFor version),
        (data, remainder data (ecFor version)) = block := by
      have hzip := @List.zip_map' _ _ _ id (fun data => remainder data (ecFor version))
        (cut (encodeData bytes version) (sizesFor version))
      rw [List.map_id] at hzip
      rw [hzip, List.mem_map] at hblock
      exact hblock
    have hdvd := (rootsProduct_dvd (ecFor_pos hversion).2 (ecFor_pos hversion).1 data).2
    exact ⟨hdvd, fun i hi => eval_of_rootsProduct_dvd gf256_add_self hdvd hi⟩
  · rw [formatCodeword, hfirst, hsecond, formatBits_xor hmask]
    exact ⟨formatCodeword_bch hmask, rfl⟩

/-- The eighth version, of two blocks of 38 bytes and two of 39, carries 150 letters. -/
theorem matrix_carries_letters :
    let letters := List.replicate 150 (0x78 : UInt8)
    versionFor letters = some 8 ∧ ∃ modules, matrix letters = .ok modules ∧
      ∃ version mask, (1 ≤ version ∧ version ≤ 10) ∧ mask < 8 ∧
        Carries letters version mask modules := by
  intro letters
  obtain ⟨modules, hmodules⟩ := matrix_ok (by decide +kernel : Fits letters 10)
  exact ⟨by decide +kernel, modules, hmodules, matrix_carries hmodules⟩

end Read

end Qr
