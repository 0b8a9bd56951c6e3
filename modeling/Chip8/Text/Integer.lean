import Chip8.Text.Blank
import Chip8.Text.DecimalDigit

/-! Written integers: blanks around, a sign, perhaps a mark of the base, and digits of any script
with single underscores between them. -/

namespace Chip8.Text

/-- How the base of a written integer is found. -/
inductive Radix where
  /-- The base is given; a mark that names this very base may stand in front of the digits. -/
  | fixed (base : Nat)
  /-- The mark decides. Without one the number is decimal, and its first digit is no zero unless
  all of them are. -/
  | marked
  deriving DecidableEq, Repr

/-- The base that a letter behind a zero stands for. -/
def markedBase? : Char → Option Nat
  | 'x' | 'X' => some 16
  | 'o' | 'O' => some 8
  | 'b' | 'B' => some 2
  | _ => none

/-- Letters continue the decimal digits of every script from ten on. -/
def digitValue? (c : Char) : Option Nat :=
  if 'a' ≤ c ∧ c ≤ 'z' then some (c.toNat - 'a'.toNat + 10)
  else if 'A' ≤ c ∧ c ≤ 'Z' then some (c.toNat - 'A'.toNat + 10)
  else decimalDigit? c.toNat

def digit? (base : Nat) (c : Char) : Option Nat :=
  (digitValue? c).filter (· < base)

/-- Digits with at most one underscore between two of them, and none at either end. -/
def digits? (base : Nat) : List Char → Option (List Nat)
  | [] => none
  | [c] => (digit? base c).map ([·])
  | c :: '_' :: rest => do return (← digit? base c) :: (← digits? base rest)
  | c :: rest => do return (← digit? base c) :: (← digits? base rest)

/-- The most digits a number may have in a base that is no power of two. -/
def maxDigits : Nat := 4300

/-- The digits are too many to be read in this base. -/
def tooLong (base : Nat) (digits : List Nat) : Bool :=
  base ∉ [2, 4, 8, 16, 32] && digits.length > maxDigits

def ofDigits (base : Nat) (digits : List Nat) : Nat :=
  digits.foldl (fun value digit => base * value + digit) 0

/-- The base that an unsigned number names: a zero of any script and a letter for the base. -/
def mark? : List Char → Option Nat
  | c :: letter :: _ => if decimalDigit? c.toNat = some 0 then markedBase? letter else none
  | _ => none

/-- Drops the mark of `base` and one underscore behind it. -/
def dropMark (base : Nat) (text : List Char) : List Char :=
  if mark? text = some base then
    match text.drop 2 with
    | '_' :: digits => digits
    | digits => digits
  else text

def startsWithZero : List Char → Bool
  | c :: _ => decimalDigit? c.toNat == some 0
  | [] => false

def readNat? (radix : Radix) (text : List Char) : Option Nat := do
  let base := match radix with
    | .fixed base => base
    | .marked => (mark? text).getD 10
  let digits ← digits? base (dropMark base text)
  let value := ofDigits base digits
  let padded := radix == .marked && (mark? text).isNone && startsWithZero text
  if tooLong base digits || (padded && value != 0) then none else some value

/-- The integer that a text spells, if it spells one. -/
def readInt? (radix : Radix) (text : String) : Option Int :=
  match trimBlanks text.toList with
  | '-' :: digits => (readNat? radix digits).map fun n => -(n : Int)
  | '+' :: digits => (readNat? radix digits).map Int.ofNat
  | digits => (readNat? radix digits).map Int.ofNat

end Chip8.Text
