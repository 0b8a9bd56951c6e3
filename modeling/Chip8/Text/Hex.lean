/-! Hexadecimal text: numbers of a fixed least width, and bytes of two digits each. -/

namespace Chip8.Text

/-- Lower-case digits filled with zeros to `width` characters; a minus sign stands in front of the
zeros and counts as one of the characters. -/
def hexChars (width : Nat) (n : Int) : List Char :=
  let sign := if n < 0 then ['-'] else []
  let digits := Nat.toDigits 16 n.natAbs
  sign ++ List.replicate (width - sign.length - digits.length) '0' ++ digits

def hex (width : Nat) (n : Int) : String :=
  String.ofList (hexChars width n)

/-! ## Bytes -/

def bytesText (bytes : List UInt8) : String := String.join (bytes.map fun b => hex 2 b.toNat)

def nibble? (c : Char) : Option UInt8 :=
  if '0' ≤ c ∧ c ≤ '9' then some (c.toNat - '0'.toNat).toUInt8
  else if 'a' ≤ c ∧ c ≤ 'f' then some (c.toNat - 'a'.toNat + 10).toUInt8
  else if 'A' ≤ c ∧ c ≤ 'F' then some (c.toNat - 'A'.toNat + 10).toUInt8
  else none

/-- Blanks that may stand between bytes. -/
def isGap (c : Char) : Bool := c == ' ' || '\t' ≤ c && c ≤ '\r'

/-- Bytes from text. Blanks do not matter, unless they divide the digits of one byte. -/
def bytes? : List Char → Option (List UInt8)
  | [] => some []
  | [c] => if isGap c then some [] else none
  | c :: d :: rest =>
    if isGap c then bytes? (d :: rest)
    else do return (16 * (← nibble? c) + (← nibble? d)) :: (← bytes? rest)

end Chip8.Text
