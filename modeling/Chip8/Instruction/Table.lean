import Chip8.Instruction.Decode

/-! The table of opcodes. Under its first nibble an opcode has either its form or a family; a family
keeps some bits of the opcode and looks the rest up in the same table. The keys of the families are
small numbers, which no opcode may use as its own key. -/

namespace Chip8

/-- The forms of opcodes. Opcodes of one form differ in their operands alone. -/
inductive OpcodeForm where
  | clear
  | ret
  | lowResolution
  | highResolution
  | jump
  | call
  | skipIfByte
  | skipUnlessByte
  | skipIfEqual
  | setByte
  | addByte
  | alu (op : AluOp)
  | skipUnlessEqual
  | setIndex
  | jumpOffset
  | random
  | draw
  | skipIfKey
  | skipUnlessKey
  | readDelay
  | awaitKey
  | setDelay
  | setSound
  | addIndex
  | glyph
  | decimal
  | dump
  | fill
  deriving DecidableEq, Repr

namespace OpcodeForm

open Opcode Instruction in
/-- What an opcode of a form does: the form says which of its nibbles are operands. -/
def instruction (w : UInt16) : OpcodeForm → Instruction
  | clear => .clear
  | ret => .ret
  | lowResolution => .lowResolution
  | highResolution => .highResolution
  | jump => .jump (address w)
  | call => .call (address w)
  | skipIfByte => .skipIfByte (x w) (byte w)
  | skipUnlessByte => .skipUnlessByte (x w) (byte w)
  | skipIfEqual => .skipIfEqual (x w) (y w)
  | setByte => .setByte (x w) (byte w)
  | addByte => .addByte (x w) (byte w)
  | alu op => .alu op (x w) (y w)
  | skipUnlessEqual => .skipUnlessEqual (x w) (y w)
  | setIndex => .setIndex (address w)
  | jumpOffset => .jumpOffset (address w)
  | random => .random (x w) (byte w)
  | draw => .draw (x w) (y w) (n w)
  | skipIfKey => .skipIfKey (x w)
  | skipUnlessKey => .skipUnlessKey (x w)
  | readDelay => .readDelay (x w)
  | awaitKey => .awaitKey (x w)
  | setDelay => .setDelay (x w)
  | setSound => .setSound (x w)
  | addIndex => .addIndex (x w)
  | glyph => .glyph (x w)
  | decimal => .decimal (x w)
  | dump => .dump (x w)
  | fill => .fill (x w)

/-! ## The forms in print -/

/-- A form as manuals print it: capital digits are fixed, and small letters stand for operands. -/
def pattern : OpcodeForm → List Char
  | clear => ['0', '0', 'E', '0']
  | ret => ['0', '0', 'E', 'E']
  | lowResolution => ['0', '0', 'F', 'E']
  | highResolution => ['0', '0', 'F', 'F']
  | jump => ['1', 'n', 'n', 'n']
  | call => ['2', 'n', 'n', 'n']
  | skipIfByte => ['3', 'x', 'k', 'k']
  | skipUnlessByte => ['4', 'x', 'k', 'k']
  | skipIfEqual => ['5', 'x', 'y', '0']
  | setByte => ['6', 'x', 'k', 'k']
  | addByte => ['7', 'x', 'k', 'k']
  | alu .copy => ['8', 'x', 'y', '0']
  | alu .or => ['8', 'x', 'y', '1']
  | alu .and => ['8', 'x', 'y', '2']
  | alu .xor => ['8', 'x', 'y', '3']
  | alu .add => ['8', 'x', 'y', '4']
  | alu .sub => ['8', 'x', 'y', '5']
  | alu .shiftRight => ['8', 'x', 'y', '6']
  | alu .subFrom => ['8', 'x', 'y', '7']
  | alu .shiftLeft => ['8', 'x', 'y', 'E']
  | skipUnlessEqual => ['9', 'x', 'y', '0']
  | setIndex => ['A', 'n', 'n', 'n']
  | jumpOffset => ['B', 'n', 'n', 'n']
  | random => ['C', 'x', 'k', 'k']
  | draw => ['D', 'x', 'y', 'n']
  | skipIfKey => ['E', 'x', '9', 'E']
  | skipUnlessKey => ['E', 'x', 'A', '1']
  | readDelay => ['F', 'x', '0', '7']
  | awaitKey => ['F', 'x', '0', 'A']
  | setDelay => ['F', 'x', '1', '5']
  | setSound => ['F', 'x', '1', '8']
  | addIndex => ['F', 'x', '1', 'E']
  | glyph => ['F', 'x', '2', '9']
  | decimal => ['F', 'x', '3', '3']
  | dump => ['F', 'x', '5', '5']
  | fill => ['F', 'x', '6', '5']

/-- The digit that a place of a pattern asks for, if it is no operand. -/
def digit? (c : Char) : Option Nat :=
  if '0' ≤ c ∧ c ≤ '9' then some (c.toNat - 0x30)
  else if 'A' ≤ c ∧ c ≤ 'F' then some (c.toNat - 0x37)
  else none

/-- Whether an opcode has the digits that a form asks for. -/
def covers (f : OpcodeForm) (w : UInt16) : Bool :=
  let nibbles := [w.toNat / 0x1000, w.toNat / 0x100 % 16, w.toNat / 0x10 % 16, w.toNat % 16]
  (f.pattern.zip nibbles).all fun (c, nibble) => (digit? c).all (· == nibble)

/-- The two that change the resolution exist only on a machine that has a high resolution. -/
def known (hires : Bool) : OpcodeForm → Bool
  | lowResolution | highResolution => hires
  | _ => true

end OpcodeForm

/-! ## The table -/

namespace OpcodeTable

inductive Entry where
  | form (f : OpcodeForm)
  /-- The opcode as a whole is the next key, unless it looks like the key of a family. -/
  | whole
  /-- The bits of the opcode under a mask are the next key. -/
  | masked (mask : Nat)
  deriving DecidableEq, Repr

def common : List (Nat × Entry) :=
  [(0x0, .whole),
    (0x1, .form .jump),
    (0x2, .form .call),
    (0x3, .form .skipIfByte),
    (0x4, .form .skipUnlessByte),
    (0x5, .masked 0xF00F),
    (0x6, .form .setByte),
    (0x7, .form .addByte),
    (0x8, .masked 0xF00F),
    (0x9, .masked 0xF00F),
    (0xA, .form .setIndex),
    (0xB, .form .jumpOffset),
    (0xC, .form .random),
    (0xD, .form .draw),
    (0xE, .masked 0xF0FF),
    (0xF, .masked 0xF0FF),
    (0x00E0, .form .clear),
    (0x00EE, .form .ret),
    (0x5000, .form .skipIfEqual),
    (0x8000, .form (.alu .copy)),
    (0x8001, .form (.alu .or)),
    (0x8002, .form (.alu .and)),
    (0x8003, .form (.alu .xor)),
    (0x8004, .form (.alu .add)),
    (0x8005, .form (.alu .sub)),
    (0x8006, .form (.alu .shiftRight)),
    (0x8007, .form (.alu .subFrom)),
    (0x800E, .form (.alu .shiftLeft)),
    (0x9000, .form .skipUnlessEqual),
    (0xE09E, .form .skipIfKey),
    (0xE0A1, .form .skipUnlessKey),
    (0xF007, .form .readDelay),
    (0xF00A, .form .awaitKey),
    (0xF015, .form .setDelay),
    (0xF018, .form .setSound),
    (0xF01E, .form .addIndex),
    (0xF029, .form .glyph),
    (0xF033, .form .decimal),
    (0xF055, .form .dump),
    (0xF065, .form .fill)]

def entries (hires : Bool) : List (Nat × Entry) :=
  if hires then common ++ [(0x00FE, .form .lowResolution), (0x00FF, .form .highResolution)]
  else common

def lookup? (hires : Bool) (key : Nat) : Option Entry := (entries hires).lookup key

/-- How far the search for the form of an opcode has come. -/
inductive Search where
  | pending (key : Nat)
  | found (f : OpcodeForm)
  | unknown
  deriving DecidableEq, Repr

/-- One access to the table. -/
def Search.next (hires : Bool) (w : UInt16) : Search → Search
  | pending key =>
    match lookup? hires key with
    | none => unknown
    | some (.form f) => found f
    | some .whole => if w.toNat < 0x10 then unknown else pending w.toNat
    | some (.masked mask) => pending (w.toNat &&& mask)
  | found f => found f
  | unknown => unknown

/-- The search for an opcode, which begins with its first nibble, after so many accesses. -/
def search (hires : Bool) (w : UInt16) : Nat → Search
  | 0 => .pending (Opcode.family w)
  | accesses + 1 => (search hires w accesses).next hires w

end OpcodeTable

end Chip8
