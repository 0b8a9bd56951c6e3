import Chip8.Setting
import Chip8.Text.Integer

/-! Colours of the window: one for dark pixels and one for lit ones. -/

namespace Chip8

structure Colour where
  red : UInt8
  green : UInt8
  blue : UInt8
  deriving DecidableEq, Repr

namespace Colour

def bytes (c : Colour) : List UInt8 := [c.red, c.green, c.blue]

/-- The colour of a number of three bytes. -/
def ofNat (n : Nat) : Colour :=
  ⟨UInt8.ofNat (n / 0x10000), UInt8.ofNat (n / 0x100), UInt8.ofNat n⟩

end Colour

structure Palette where
  dark : Colour := ⟨0x22, 0x22, 0x22⟩
  lit : Colour := ⟨0xDD, 0xDD, 0xDD⟩
  deriving DecidableEq, Repr

namespace Palette

/-- The number that a field of a written palette stands for. -/
def readField (field : String) : Except Failure Int :=
  if field.length ≠ 6 then .error (.palette .length)
  else match Text.readInt? (.fixed 16) field with
    | none => .error (.palette .notHexadecimal)
    | some n => .ok n

/-- The colour of a number, which must not be below zero. -/
def colourOf (n : Int) : Except Failure Colour :=
  if n < 0 then .error (.number .range) else .ok (.ofNat n.toNat)

/-- Reads one or two colours with a comma between them. All fields are read before any number is
turned into a colour. -/
def read (text : String) : Except Failure Palette :=
  match text.splitToList (· == ',') with
  | [dark] => do
    let dark ← readField dark
    return { dark := ← colourOf dark }
  | [dark, lit] => do
    let dark ← readField dark
    let lit ← readField lit
    return { dark := ← colourOf dark, lit := ← colourOf lit }
  | _ => .error (.palette .count)

/-- The colours that are set; without a setting they are shades of grey. -/
def ofSetting : Setting String → Except Failure Palette
  | .absent => .ok {}
  | .empty => .error (.missing .text)
  | .value text => read text

end Palette

end Chip8
