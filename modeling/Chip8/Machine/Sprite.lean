import Chip8.Machine.Basic

/-! Sprites: pictures of one or two bytes a row, drawn by inverting the pixels under their lit
ones. -/

namespace Chip8

/-- The shape of a sprite; a wide one has two bytes a row. -/
structure SpriteShape where
  height : Nat
  wide : Bool
  deriving DecidableEq, Repr

namespace SpriteShape

def width (s : SpriteShape) : Nat := if s.wide then 16 else 8

/-- How many bytes the sprite occupies. -/
def bytes (s : SpriteShape) : Nat := if s.wide then 2 * s.height else s.height

/-- The shape that a draw instruction asks for. On a machine with a high resolution, height zero
stands for sixteen rows, which are wide when the high resolution is on. -/
def ofHeight (hires lowRes : Bool) (height : Nat) : SpriteShape :=
  if height = 0 ∧ hires then ⟨16, !lowRes⟩ else ⟨height, false⟩

/-- A row of the sprite at an address as a number whose most significant bit is the leftmost
pixel. -/
def readRow (s : SpriteShape) (memory : Memory) (address : Int) (row : Nat) : Except Fault Nat :=
  if s.wide then do
    let high ← memory.read (address + row * 2)
    let low ← memory.read (address + row * 2 + 1)
    return high.toNat * 0x100 + low.toNat
  else do
    let bits ← memory.read (address + row)
    return bits.toNat

/-- The lit columns of a row, from left to right. -/
def litColumns (s : SpriteShape) (bits : Nat) : List Nat :=
  (List.range s.width).filter fun column => bits.testBit (s.width - 1 - column)

end SpriteShape

/-- Inverts one pixel after the other, at offsets of a column and a row from an origin. Answers whether
any was lit. -/
def Display.invertAll (x y : Nat) (wrap : Bool) : List (Nat × Nat) → EStateM Fault Display Bool
  | [] => return false
  | (column, row) :: rest => do
    let (lit, d) ← liftExcept ((← get).invert (x + column : Nat) (y + row : Nat) wrap)
    set d
    let hit ← invertAll x y wrap rest
    return lit == some true || hit

namespace Execution

/-- A run on the screen of a machine. -/
def onDisplay {α : Type} (run : EStateM Fault Display α) : Execution α := fun m =>
  match run m.display with
  | .ok a d => .ok a { m with display := d }
  | .error fault d => .error fault { m with display := d }

/-- Draws rows of the sprite at an address. Answers whether a lit pixel went dark. -/
def drawRows (shape : SpriteShape) (address : Int) (x y : Nat) (wrap : Bool) :
    List Nat → Execution Bool
  | [] => return false
  | row :: rest => do
    let bits ← liftExcept (shape.readRow (← get).memory address row)
    let hit ← onDisplay (Display.invertAll x y wrap ((shape.litColumns bits).map (·, row)))
    let hits ← drawRows shape address x y wrap rest
    return hit || hits

/-- Draws the sprite at I. Its origin is always on the screen; the flag tells whether a lit pixel
went dark. -/
def draw (x y : Register) (height : Nat) : Execution Unit := do
  let m ← get
  let shape := SpriteShape.ofHeight m.hires m.lowRes height
  liftExcept (m.memory.checkSpan m.i shape.bytes)
  let originX := (m.getV x).toNat % m.display.width
  let originY := (m.getV y).toNat % m.display.height
  let hit ← drawRows shape m.i originX originY (!m.dialect.clip) (List.range shape.height)
  modify (·.setFlag hit)

end Execution

end Chip8
