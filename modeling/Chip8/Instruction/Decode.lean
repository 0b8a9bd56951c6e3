import Chip8.Instruction

/-! Opcodes. The first nibble of an opcode tells its family, the further ones its operands; a family
with several members tells them apart by its last nibble or its last byte. -/

namespace Chip8

/-! ## Fields of an opcode -/

namespace Opcode

def family (w : UInt16) : Nat := w.toNat / 0x1000

def x (w : UInt16) : Register := ⟨w.toNat / 0x100 % 16, by omega⟩

def y (w : UInt16) : Register := ⟨w.toNat / 0x10 % 16, by omega⟩

def n (w : UInt16) : Fin 16 := ⟨w.toNat % 16, by omega⟩

def byte (w : UInt16) : UInt8 := UInt8.ofNat (w.toNat % 0x100)

def address (w : UInt16) : Address := ⟨w.toNat % 0x1000, by omega⟩

end Opcode

def AluOp.ofNibble? : Nat → Option AluOp
  | 0x0 => some copy
  | 0x1 => some or
  | 0x2 => some and
  | 0x3 => some xor
  | 0x4 => some add
  | 0x5 => some sub
  | 0x6 => some shiftRight
  | 0x7 => some subFrom
  | 0xE => some shiftLeft
  | _ => none

def AluOp.nibble : AluOp → Nat
  | copy => 0x0
  | or => 0x1
  | and => 0x2
  | xor => 0x3
  | add => 0x4
  | sub => 0x5
  | shiftRight => 0x6
  | subFrom => 0x7
  | shiftLeft => 0xE

theorem AluOp.ofNibble?_nibble (op : AluOp) : ofNibble? op.nibble = some op := by
  cases op <;> rfl

namespace Instruction

open Opcode

/-- The instruction of an opcode, if there is one. The two that change the resolution exist only on
a machine that has a high resolution. -/
def decode? (hires : Bool) (w : UInt16) : Option Instruction :=
  match family w with
  | 0x0 =>
    match w.toNat with
    | 0x00E0 => some clear
    | 0x00EE => some ret
    | 0x00FE => if hires then some lowResolution else none
    | 0x00FF => if hires then some highResolution else none
    | _ => none
  | 0x1 => some (jump (address w))
  | 0x2 => some (call (address w))
  | 0x3 => some (skipIfByte (x w) (byte w))
  | 0x4 => some (skipUnlessByte (x w) (byte w))
  | 0x5 => if (n w).val = 0 then some (skipIfEqual (x w) (y w)) else none
  | 0x6 => some (setByte (x w) (byte w))
  | 0x7 => some (addByte (x w) (byte w))
  | 0x8 => (AluOp.ofNibble? (n w)).map fun op => alu op (x w) (y w)
  | 0x9 => if (n w).val = 0 then some (skipUnlessEqual (x w) (y w)) else none
  | 0xA => some (setIndex (address w))
  | 0xB => some (jumpOffset (address w))
  | 0xC => some (random (x w) (byte w))
  | 0xD => some (draw (x w) (y w) (n w))
  | 0xE =>
    match (byte w).toNat with
    | 0x9E => some (skipIfKey (x w))
    | 0xA1 => some (skipUnlessKey (x w))
    | _ => none
  | _ =>
    match (byte w).toNat with
    | 0x07 => some (readDelay (x w))
    | 0x0A => some (awaitKey (x w))
    | 0x15 => some (setDelay (x w))
    | 0x18 => some (setSound (x w))
    | 0x1E => some (addIndex (x w))
    | 0x29 => some (glyph (x w))
    | 0x33 => some (decimal (x w))
    | 0x55 => some (dump (x w))
    | 0x65 => some (fill (x w))
    | _ => none

end Instruction

end Chip8
