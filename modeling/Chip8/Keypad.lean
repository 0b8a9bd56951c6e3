import Chip8.Failure

/-! The hexadecimal keypad. The latch remembers the key that went last from released to pressed, so
that a press can answer a wait even after its release. -/

namespace Chip8

structure Keypad where
  down : Vector Bool Layout.keyCount := Vector.replicate _ false
  latch : Option (Fin Layout.keyCount) := none
  deriving DecidableEq, Repr

namespace Keypad

/-- Presses or releases a key. A key that is already down does not reach the latch. -/
def put (k : Keypad) (key : Fin Layout.keyCount) (pressed : Bool) : Keypad where
  down := k.down.set key pressed
  latch := if pressed && !k.down[key] then some key else k.latch

def set (k : Keypad) (key : Int) (pressed : Bool) : Except Failure Keypad :=
  if h : 0 ≤ key ∧ key < Layout.keyCount then
    .ok (k.put ⟨key.toNat, by omega⟩ pressed)
  else .error (.noSuchKey key)

/-- The key that the low nibble of a number names. -/
def keyOf (n : Int) : Fin Layout.keyCount :=
  ⟨(n % 16).toNat, by show _ < 16; omega⟩

def isDown (k : Keypad) (key : Int) : Bool := k.down[keyOf key]

/-- Forgets earlier presses. -/
def clearLatch (k : Keypad) : Keypad := { k with latch := none }

def released : Keypad := {}

/-- Releases every key and forgets earlier presses. -/
def releaseAll (k : Keypad) : Keypad where
  down := k.down.map fun _ => false
  latch := none

/-- The keys that are held, ascending. -/
def held (k : Keypad) : List (Fin Layout.keyCount) :=
  (List.finRange Layout.keyCount).filter fun key => k.down[key]

end Keypad

end Chip8
