import Chip8.Keypad
import Chip8.Text.Integer
import Chip8.Text.LowerCase

/-! Keymaps: which code of the host stands for which key of the keypad. A keymap is written as
sixteen integers with commas between them, for the keys from 0 to F. -/

namespace Chip8

/-- Codes with their keys, in the order of the keys. -/
structure Keymap where
  entries : List (Int × Fin Layout.keyCount)
  deriving DecidableEq, Repr

namespace Keymap

/-- The code of a character in lower case. A code that is no character, and a character that has a
lower case of several, are refused. -/
def lowerCode (code : Int) : Except NumberError Int :=
  if code < -0x80000000 ∨ 0x7FFFFFFF < code then .error .overflow
  else if code < 0 ∨ 0x10FFFF < code then .error .range
  else match Text.lowerCase code.toNat with
    | [lower] => .ok lower
    | _ => .error .notOneCharacter

/-- The code that a field of a written keymap stands for. -/
def readCode (lower : Bool) (field : String) : Except Failure Int :=
  match Text.readInt? (.fixed 10) field with
  | none => .error (.keymap .notInteger)
  | some code => if lower then (lowerCode code).mapError .number else .ok code

/-- Adds codes for the given keys to those already known. -/
def readFields (lower : Bool) (known : List (Int × Fin Layout.keyCount)) :
    List (String × Fin Layout.keyCount) → Except Failure (List (Int × Fin Layout.keyCount))
  | [] => .ok known
  | (field, key) :: rest =>
    match readCode lower field with
    | .error failure => .error failure
    | .ok code =>
      if known.any (·.1 == code) then .error (.keymap .duplicate)
      else readFields lower (known ++ [(code, key)]) rest

/-- Reads a keymap; with `lower`, its codes are characters and are taken in lower case. -/
def read (text : String) (lower : Bool) : Except Failure Keymap :=
  let fields := text.splitToList (· == ',')
  if fields.length ≠ Layout.keyCount then .error (.keymap .count)
  else (readFields lower [] (fields.zip (List.finRange Layout.keyCount))).map (⟨·⟩)

/-- The key of a code. -/
def key? (m : Keymap) (code : Int) : Option (Fin Layout.keyCount) := m.entries.lookup code

/-- On a keyboard with the digits above the letters, the keys are where those of the keypad are. -/
def defaultText : String := "120,49,50,51,113,119,101,97,115,100,122,99,52,114,102,118"

end Keymap

end Chip8
