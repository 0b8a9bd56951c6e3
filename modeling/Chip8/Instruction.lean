import Chip8.Layout
import Chip8.Text.Hex
import Chip8.Dialect

/-! The instruction set. -/

namespace Chip8

/-- One of the sixteen registers V0 to VF. -/
abbrev Register := Fin 16

/-- V0. -/
def Register.first : Register := ⟨0, by decide⟩

/-- VF, to which arithmetic and drawing write a flag. -/
def Register.flag : Register := ⟨0xF, by decide⟩

abbrev Address := Fin 0x1000

/-- What `8xyN` does with two registers; the first one receives the result. -/
inductive AluOp where
  | copy
  | or
  | and
  | xor
  | add
  | sub
  | shiftRight
  /-- The first register is subtracted from the second. -/
  | subFrom
  | shiftLeft
  deriving DecidableEq, Repr

inductive Instruction where
  | clear
  | ret
  | lowResolution
  | highResolution
  | jump (target : Address)
  | call (target : Address)
  | skipIfByte (x : Register) (byte : UInt8)
  | skipUnlessByte (x : Register) (byte : UInt8)
  | skipIfEqual (x y : Register)
  | setByte (x : Register) (byte : UInt8)
  | addByte (x : Register) (byte : UInt8)
  | alu (op : AluOp) (x y : Register)
  | skipUnlessEqual (x y : Register)
  | setIndex (target : Address)
  /-- A register is added to the target: V0, or in some dialects the one its top digit names. -/
  | jumpOffset (target : Address)
  | random (x : Register) (mask : UInt8)
  | draw (x y : Register) (height : Fin 16)
  | skipIfKey (x : Register)
  | skipUnlessKey (x : Register)
  | readDelay (x : Register)
  | awaitKey (x : Register)
  | setDelay (x : Register)
  | setSound (x : Register)
  | addIndex (x : Register)
  | glyph (x : Register)
  | decimal (x : Register)
  /-- Stores V0 to Vx at I. -/
  | dump (x : Register)
  /-- Loads V0 to Vx from I. -/
  | fill (x : Register)
  deriving DecidableEq, Repr

/-- The register whose value an offset jump adds. -/
def jumpRegister (d : Dialect) (target : Address) : Register :=
  if d.jump then ⟨target.val / 0x100, by have := target.isLt; omega⟩ else .first

namespace Instruction

open Text

private def reg (x : Register) : String := "V" ++ hex 1 x.val

private def byteText (b : UInt8) : String := "0x" ++ hex 2 b.toNat

private def addressText (a : Address) : String := "0x" ++ hex 3 a.val

private def aluText (d : Dialect) (op : AluOp) (x y : Register) : String :=
  let both := reg x ++ ", " ++ reg y
  let shifted := if d.shift then reg x else both
  match op with
  | .copy => "LD " ++ both
  | .or => "OR " ++ both
  | .and => "AND " ++ both
  | .xor => "XOR " ++ both
  | .add => "ADD " ++ both
  | .sub => "SUB " ++ both
  | .shiftRight => "SHR " ++ shifted
  | .subFrom => "SUBN " ++ both
  | .shiftLeft => "SHL " ++ shifted

/-- An instruction in assembler. A shift names the registers that it reads in this dialect, and an
offset jump the register that it adds. -/
def text (d : Dialect) : Instruction → String
  | clear => "CLS"
  | ret => "RET"
  | lowResolution => "LOW"
  | highResolution => "HIGH"
  | jump target => "JP " ++ addressText target
  | call target => "CALL " ++ addressText target
  | skipIfByte x byte => "SE " ++ reg x ++ ", " ++ byteText byte
  | skipUnlessByte x byte => "SNE " ++ reg x ++ ", " ++ byteText byte
  | skipIfEqual x y => "SE " ++ reg x ++ ", " ++ reg y
  | setByte x byte => "LD " ++ reg x ++ ", " ++ byteText byte
  | addByte x byte => "ADD " ++ reg x ++ ", " ++ byteText byte
  | alu op x y => aluText d op x y
  | skipUnlessEqual x y => "SNE " ++ reg x ++ ", " ++ reg y
  | setIndex target => "LD I, " ++ addressText target
  | jumpOffset target => "JP " ++ reg (jumpRegister d target) ++ ", " ++ addressText target
  | random x mask => "RND " ++ reg x ++ ", " ++ byteText mask
  | draw x y height => "DRW " ++ reg x ++ ", " ++ reg y ++ ", 0x" ++ hex 1 height.val
  | skipIfKey x => "SKP " ++ reg x
  | skipUnlessKey x => "SKNP " ++ reg x
  | readDelay x => "LD " ++ reg x ++ ", DT"
  | awaitKey x => "LD " ++ reg x ++ ", K"
  | setDelay x => "LD DT, " ++ reg x
  | setSound x => "LD ST, " ++ reg x
  | addIndex x => "ADD I, " ++ reg x
  | glyph x => "LD F, " ++ reg x
  | decimal x => "LD B, " ++ reg x
  | dump x => "LD [I], " ++ reg x
  | fill x => "LD " ++ reg x ++ ", [I]"

end Instruction

end Chip8
