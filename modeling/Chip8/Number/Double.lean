import Chip8.Failure

/-! Nearest floating-point numbers. -/

namespace Chip8.Number

/-- The integer nearest to a quotient; a half goes to the even neighbour. -/
def roundDiv (num den : Nat) : Nat :=
  let floor := num / den
  let twice := 2 * (num % den)
  if den < twice ∨ (den = twice ∧ floor % 2 = 1) then floor + 1 else floor

/-- The exponent of the last place of a double near a positive quotient: at least 2^52 of these
units make up the quotient, unless it is too small for a double to have that many digits. -/
def lastPlace (num den : Nat) : Int :=
  let guess : Int := num.log2 - den.log2 - 53
  let units := if 0 ≤ guess then num / (den <<< guess.toNat) else (num <<< (-guess).toNat) / den
  max (-1074) (if units < 1 <<< 53 then guess else guess + 1)

/-- The bits of the double nearest to a quotient with a positive divisor. A quotient above all
doubles gives infinity. -/
def doubleBits (num den : Nat) : Nat :=
  if num = 0 then 0
  else
    let place := lastPlace num den
    let units := if 0 ≤ place then roundDiv num (den <<< place.toNat)
      else roundDiv (num <<< (-place).toNat) den
    min (((place + 1074).toNat <<< 52) + units) (0x7FF <<< 52)

/-- The double nearest to a quotient with a positive divisor. -/
def nearest (num : Int) (den : Nat) : Float :=
  let magnitude := Float.ofBits (doubleBits num.natAbs den).toUInt64
  if num < 0 then -magnitude else magnitude

/-- An integer as a floating-point number, unless it is beyond all of them. -/
def double (n : Int) : Except NumberError Float :=
  let x := nearest n 1
  if x.isFinite then .ok x else .error .overflow

end Chip8.Number
