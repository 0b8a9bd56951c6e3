import Chip8.Memory

/-! The screen: a grid of lit and dark pixels that changes only by inverting single pixels, by
clearing, and by taking another size. -/

namespace Chip8

structure Display where
  width : Nat
  height : Nat
  /-- One cell a pixel, row by row; any value but zero is a lit pixel. A screen for which there was
  no room still has the cells of an earlier one. -/
  cells : Memory
  /-- Something was drawn since the picture was last asked for. -/
  dirty : Bool
  width_pos : 0 < width
  height_pos : 0 < height

/-- A picture: its rows from the top, each from the left; lit pixels are true. -/
abbrev Picture := List (List Bool)

namespace Display

def blank (width height : Nat) (hw : 0 < width) (hh : 0 < height) : Display where
  width := width
  height := height
  cells := Memory.zeros (width * height : Nat)
  dirty := true
  width_pos := hw
  height_pos := hh

/-- A dark screen of a given size. -/
def ofSize (room : Nat) (width height : Int) : Except Failure Display :=
  if h : 0 < width ∧ 0 < height then
    match Number.count room 1 (width * height) with
    | .ok _ => .ok (blank width.toNat height.toNat (by omega) (by omega))
    | .error cause => .error (.number cause)
  else .error .emptyScreen

/-- Takes another size and goes dark. A size without pixels is refused; one for which there is no
room is taken, but the cells and what is on them stay. -/
def resize (room : Nat) (d : Display) (width height : Int) : Display × Except Failure Unit :=
  if h : 0 < width ∧ 0 < height then
    match Number.count room 1 (width * height) with
    | .ok _ => (blank width.toNat height.toNat (by omega) (by omega), .ok ())
    | .error cause =>
      ({ d with
        width := width.toNat
        height := height.toNat
        width_pos := by omega
        height_pos := by omega },
        .error (.number cause))
  else (d, .error .emptyScreen)

def lowResolution : Display :=
  blank Layout.lowResolution.1 Layout.lowResolution.2 (by decide) (by decide)

def highResolution : Display :=
  blank Layout.highResolution.1 Layout.highResolution.2 (by decide) (by decide)

def clear (d : Display) : Display :=
  { d with cells := d.cells.zeroFrom 0, dirty := true }

/-- The cell of a coordinate. A wrapping coordinate is taken modulo the size; one that does not wrap
has no cell beyond the right and the bottom edge. -/
def locate (d : Display) (x y : Int) (wrap : Bool) : Option Int :=
  if wrap then some (y % d.height * d.width + x % d.width)
  else if d.width ≤ x ∨ d.height ≤ y then none
  else some (y * d.width + x)

/-- Inverts a pixel. Answers whether it was lit, or nothing if it is clipped. -/
def invert (d : Display) (x y : Int) (wrap : Bool) : Except Fault (Option Bool × Display) :=
  match d.locate x y wrap with
  | none => .ok (none, d)
  | some cell =>
    match d.cells.read cell with
    | .error fault => .error fault
    | .ok value =>
      .ok (some (value != 0),
        { d with cells := d.cells.put cell.toNat (value ^^^ 1), dirty := true })

/-- Writes a cell directly. -/
def store (d : Display) (cell value : Int) : Except Failure Display :=
  match d.cells.store cell value with
  | .error failure => .error failure
  | .ok cells => .ok { d with cells }

/-- Whether a pixel is lit; there are none beyond the edges. -/
def isLit (d : Display) (x y : Nat) : Bool :=
  x < d.width && (d.cells.byteAt? (y * d.width + x : Nat)).any (· != 0)

/-- A row from its first cell to the one behind its last, as far as there are cells. -/
def row (d : Display) (y : Nat) : List Bool :=
  (d.cells.slice (y * d.width : Nat) (y * d.width + d.width : Nat)).map (· != 0)

def picture (d : Display) : Picture := (List.range d.height).map d.row

/-- Every row of a screen with a cell for each pixel is as long as the screen is wide. -/
theorem row_eq (d : Display) {y : Nat} (size : d.cells.cells.size = d.width * d.height)
    (hy : y < d.height) : d.row y = (List.range d.width).map fun x => d.isLit x y := by
  have stop : y * d.width + d.width ≤ d.cells.cells.size := by
    rw [size, Nat.mul_comm d.width, ← Nat.succ_mul]
    exact Nat.mul_le_mul_right _ hy
  have start : y * d.width ≤ d.cells.cells.size := by omega
  apply List.ext_getElem
  · simp only [row, Memory.slice_of_le _ start stop, List.length_map, Array.length_toList,
      Array.size_extract, List.length_range]
    omega
  · intro x _ hx
    simp only [List.length_map, List.length_range] at hx
    have bound : y * d.width + x < d.cells.cells.size := by omega
    simp only [row, Memory.slice_of_le _ start stop, List.getElem_map, Array.getElem_toList,
      Array.getElem_extract, List.getElem_range, isLit, Memory.byteAt?_natCast,
      Array.getElem?_eq_getElem bound, hx, decide_true, Bool.true_and, Option.any_some]

def litCount (d : Display) : Nat := d.cells.cells.countP (· != 0)

def size (d : Display) : Nat × Nat := (d.width, d.height)

/-- Asks for the picture: from here on it counts as shown. -/
def consumeDirty (d : Display) : Bool × Display := (d.dirty, { d with dirty := false })

end Display

end Chip8
