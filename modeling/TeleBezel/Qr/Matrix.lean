import TeleBezel.Lib.Bitmap
import TeleBezel.Qr.Codewords

/-!
# The module matrix of a text

The function patterns of a version are set and reserved, the bits of the codewords fill the other
modules along a zig-zag of double columns, one of eight masks flips some of them, and the format
bits of the mask are written over the places kept for them. The mask with the least penalty is
taken.
-/

open BinaryPoly BitString Bitmap

namespace Qr

/-- `ALIGNMENT`. -/
def alignment : List (List ℕ) :=
  [[], [6, 18], [6, 22], [6, 26], [6, 30], [6, 34],
   [6, 22, 38], [6, 24, 42], [6, 26, 46], [6, 28, 50]]

/-- A value and its remainder. -/
def bch (value generatorBits length : ℕ) : ℕ :=
  (value <<< length) ||| reduce generatorBits 32 (value <<< length)

/-- `grid`: the modules, and those that are reserved. -/
structure Grid where
  modules : List (List Bool)
  reserved : List (List Bool)

/-- No module is set. -/
def emptyGrid (size : ℕ) : Grid where
  modules := List.replicate size (List.replicate size false)
  reserved := List.replicate size (List.replicate size false)

variable (grid : Grid)

/-- A module of a function pattern. -/
def Grid.set (grid : Grid) (row column : ℕ) (value : Bool) : Grid where
  modules := write grid.modules row column value
  reserved := write grid.reserved row column true

/-- The modules of a function pattern. -/
def Grid.setAll (writes : List ((ℕ × ℕ) × Bool)) : Grid :=
  writes.foldl (fun grid w => grid.set w.1.1 w.1.2 w.2) grid

/-- A place is reserved, if it is not yet. -/
def Grid.keep (row column : ℕ) : Grid :=
  if cell grid.reserved row column then grid else grid.set row column false

/-- The integers from `low`, as many as given. -/
def offsets (low : ℤ) (count : ℕ) : List ℤ := (List.range count).map fun (k : ℕ) => low + k

/-- A finder pattern with its border. -/
def finder (size top left : ℕ) : List ((ℕ × ℕ) × Bool) :=
  (offsets (-1) 9).flatMap fun (row : ℤ) => (offsets (-1) 9).filterMap fun (column : ℤ) =>
    let y := top + row
    let x := left + column
    if y < 0 ∨ size ≤ y ∨ x < 0 ∨ size ≤ x then none
    else
      let edge := max (row - 3).natAbs (column - 3).natAbs
      some ((y.toNat, x.toNat), decide (edge ≠ 2 ∧ edge ≤ 3))

/-- The timing patterns. -/
def timing (size : ℕ) : List ((ℕ × ℕ) × Bool) :=
  (List.range' 8 (size - 8 - 8)).flatMap fun index =>
    [((6, index), decide (index % 2 = 0)), ((index, 6), decide (index % 2 = 0))]

/-- The alignment patterns but for the three corners, which are taken by the finder patterns. -/
def alignments (version : ℕ) : List ((ℕ × ℕ) × Bool) :=
  let centres := alignment.getD (version - 1) []
  let last := centres.length - 1
  (List.range centres.length).flatMap fun vertical =>
    (List.range centres.length).flatMap fun horizontal =>
      if (vertical = 0 ∧ horizontal = 0) ∨ (vertical = 0 ∧ horizontal = last) ∨
          (vertical = last ∧ horizontal = 0) then []
      else
        (offsets (-2) 5).flatMap fun (dy : ℤ) => (offsets (-2) 5).map fun (dx : ℤ) =>
          (((centres.getD vertical 0 + dy).toNat, (centres.getD horizontal 0 + dx).toNat),
            decide (max dy.natAbs dx.natAbs ≠ 1))

/-- The two copies of the version. -/
def versionInformation (version size : ℕ) : List ((ℕ × ℕ) × Bool) :=
  if 7 ≤ version then
    let bits := bch version 0x1f25 12
    (List.range 18).flatMap fun index =>
      let value := decide ((bits >>> index) &&& 1 = 1)
      [((index / 3, size - 11 + index % 3), value), ((size - 11 + index % 3, index / 3), value)]
  else []

/-- All function patterns. -/
def placeFunctionPatterns (version size : ℕ) : Grid :=
  let grid := grid.setAll (finder size 0 0)
  let grid := grid.setAll (finder size 0 (size - 7))
  let grid := grid.setAll (finder size (size - 7) 0)
  let grid := grid.setAll (timing size)
  let grid := grid.setAll (alignments version)
  let grid := grid.set (size - 8) 8 true
  let grid := (List.range 9).foldl (fun grid index => (grid.keep 8 index).keep index 8) grid
  let grid := (List.range 8).foldl
    (fun grid index => (grid.keep 8 (size - 1 - index)).keep (size - 1 - index) 8) grid
  grid.setAll (versionInformation version size)

/-- A bit of the stream, and zero past its end. -/
def streamBit (stream : List UInt8) (bit : ℕ) : Bool :=
  match stream[bit >>> 3]? with
  | some byte => decide ((byte.toNat >>> (7 - (bit &&& 7))) &&& 1 = 1)
  | none => false

/-- A bit, where nothing is reserved. -/
def placeBit (reserved : List (List Bool)) (stream : List UInt8)
    (state : ℕ × List (List Bool)) (row column : ℕ) : ℕ × List (List Bool) :=
  if cell reserved row column then state
  else (state.1 + 1, write state.2 row column (streamBit stream state.1))

/-- A strip of two columns, up or down. -/
def placeStrip (reserved : List (List Bool)) (stream : List UInt8) (size right : ℕ) (upward : Bool)
    (state : ℕ × List (List Bool)) : ℕ × List (List Bool) :=
  (List.range size).foldl
    (fun state step =>
      let row := if upward then size - 1 - step else step
      [right, right - 1].foldl (fun state column => placeBit reserved stream state row column) state)
    state

/-- The double columns from `right` leftwards; the timing column is skipped. -/
def placeStrips (reserved : List (List Bool)) (stream : List UInt8) (size : ℕ) :
    ℕ → ℕ → Bool → ℕ × List (List Bool) → ℕ × List (List Bool)
  | 0, _, _, state => state
  | fuel + 1, right, upward, state =>
    if right < 1 then state
    else
      let right := if right = 6 then 5 else right
      placeStrips reserved stream size fuel (right - 2) (!upward)
        (placeStrip reserved stream size right upward state)

/-- The stream in the modules that are left. -/
def placeData (stream : List UInt8) (size : ℕ) : Grid :=
  { grid with
    modules := (placeStrips grid.reserved stream size size (size - 1) true (0, grid.modules)).2 }

/-- `MASKS`. -/
def masks (mask row column : ℕ) : Bool :=
  match mask with
  | 0 => (row + column) % 2 == 0
  | 1 => row % 2 == 0
  | 2 => column % 3 == 0
  | 3 => (row + column) % 3 == 0
  | 4 => (row / 2 + column / 3) % 2 == 0
  | 5 => (row * column) % 2 + (row * column) % 3 == 0
  | 6 => ((row * column) % 2 + (row * column) % 3) % 2 == 0
  | _ => ((row + column) % 2 + (row * column) % 3) % 2 == 0

/-- The data is masked. -/
def applyMask (mask : ℕ) : Grid :=
  { grid with
    modules := mapCells
      (fun row column value =>
        if !cell grid.reserved row column && masks mask row column then !value else value)
      grid.modules }

/-- Level and mask with their parity. -/
def formatBits (mask : ℕ) : ℕ := bch ((0b00 <<< 3) ||| mask) 0x537 10 ^^^ 0x5412

/-- The two copies of the format. -/
def format (mask size : ℕ) : List ((ℕ × ℕ) × Bool) :=
  let value := fun index => decide ((formatBits mask >>> index) &&& 1 = 1)
  (List.range 6).map (fun index => ((index, 8), value index)) ++
    [((7, 8), value 6), ((8, 8), value 7)] ++
    (List.range' 8 7).map (fun index => ((size - 15 + index, 8), value index)) ++
    (List.range 8).map (fun index => ((8, size - 1 - index), value index)) ++
    [((8, 7), value 8)] ++
    (List.range' 9 6).map (fun index => ((8, 14 - index), value index)) ++
    [((size - 8, 8), true)]

/-- The format is written. -/
def placeFormat (mask size : ℕ) : Grid :=
  { grid with modules := writeAll grid.modules (format mask size) }

/-- The penalty of the runs of a line. -/
def runScore : Bool → ℕ → List Bool → ℕ
  | _, run, [] => if 5 ≤ run then run - 2 else 0
  | previous, run, value :: line =>
    if value = previous then runScore previous (run + 1) line
    else (if 5 ≤ run then run - 2 else 0) + runScore value 1 line

/-- The penalty of what looks like a finder pattern. -/
def finderScore (line : List Bool) (size : ℕ) : ℕ :=
  ((List.range size).filter fun index => index + 7 ≤ size ∧
    (line.drop index).take 7 = [true, false, true, true, true, false, true]).length * 40

/-- The penalty of a line. -/
def lineScore (line : List Bool) (size : ℕ) : ℕ :=
  runScore (line.getD 0 false) 1 line.tail + finderScore line size

variable (modules : List (List Bool))

/-- The penalty of the squares of one colour. -/
def squareScore (size : ℕ) : ℕ :=
  ((List.range (size - 1)).map fun row =>
    ((List.range (size - 1)).filter fun column =>
      let first := cell modules row column
      first = cell modules row (column + 1) ∧ first = cell modules (row + 1) column ∧
        first = cell modules (row + 1) (column + 1)).length * 3).sum

/-- The dark modules' distance from a half, in steps of five percent. The quotients are exact at
the steps, so that they are taken in the integers. -/
def darkScore (size : ℕ) : ℕ :=
  let dark := (modules.map fun line => line.countP id).sum
  ((dark * 100 : ℤ) - 50 * (size * size)).natAbs / (5 * (size * size)) * 10

/-- The penalty of a matrix. -/
def penalty (size : ℕ) : ℕ :=
  let columns := (List.range size).map fun column => modules.map fun line => line.getD column false
  ((modules ++ columns).map fun line => lineScore line size).sum + squareScore modules size +
    darkScore modules size

/-- The matrix with a mask. -/
def candidate (base : Grid) (size mask : ℕ) : List (List Bool) :=
  (placeFormat (applyMask base mask) mask size).modules

/-- The matrix of the least penalty so far. -/
def better (size : ℕ) (best : Option (ℕ × List (List Bool))) (modules : List (List Bool)) :
    Option (ℕ × List (List Bool)) :=
  let score := penalty modules size
  match best with
  | none => some (score, modules)
  | some (least, chosen) => if score < least then some (score, modules) else some (least, chosen)

variable (bytes : List UInt8)

/-- The smallest version that the text fits. -/
def versionFor : Option ℕ :=
  ((List.range versions.length).find? fun index => Fits bytes (index + 1)).map (· + 1)

/-- The grid before it is masked. -/
def base (version : ℕ) : Grid :=
  let size := 17 + 4 * version
  placeData (placeFunctionPatterns (emptyGrid size) version size)
    (interleave (encodeData bytes version) version) size

/-- `matrix`: the symbol of a text. -/
def matrix : Except String (List (List Bool)) :=
  match versionFor bytes with
  | none => .error "qr.too_long"
  | some version =>
    let size := 17 + 4 * version
    let best := (List.range 8).foldl
      (fun best mask => better size best (candidate (base bytes version) size mask)) none
    .ok (best.map Prod.snd |>.getD [])

end Qr
