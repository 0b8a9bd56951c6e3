import Chip8.About
import Chip8.Layout
import Chip8.Text.Hex

/-! Faults of the machine: what a program, or a host that loads one, can do wrong. -/

namespace Chip8

open Text

inductive Fault where
  /-- There is no byte at this address. -/
  | outside (address : Int)
  /-- A program was to be loaded into the interpreter's area. -/
  | reserved (address : Int)
  /-- A program is longer than the memory from its load address on. -/
  | tooLong (length : Nat) (available address : Int)
  /-- The instruction at `origin` continues at no place for an opcode. -/
  | badTarget (target origin : Int)
  /-- A call finds all `limit` return addresses in use. -/
  | callsFull (limit : Int)
  /-- A return finds no return address. -/
  | callsEmpty
  /-- No instruction has this opcode; `report` describes the machine that fetched it. -/
  | unknownOpcode (opcode : UInt16) (origin : Int) (report : String)
  deriving DecidableEq, Repr

/-- Faults that a host tells apart. -/
inductive Fault.Kind where
  | memory
  | callsFull
  | callsEmpty
  | opcode
  deriving DecidableEq, Repr

/-- The part of the machine that a kind of fault belongs to. -/
inductive Fault.Group where
  | memory
  | calls
  | processor
  deriving DecidableEq, Repr

def Fault.Kind.group : Fault.Kind → Fault.Group
  | memory => .memory
  | callsFull | callsEmpty => .calls
  | opcode => .processor

namespace Fault

def kind : Fault → Kind
  | outside _ | reserved _ | tooLong _ _ _ | badTarget _ _ => .memory
  | callsFull _ => .callsFull
  | callsEmpty => .callsEmpty
  | unknownOpcode _ _ _ => .opcode

def message : Fault → String
  | outside address => s!"Memory access at 0x{hex 4 address} is out of bounds"
  | reserved address =>
    s!"Load address 0x{hex 3 address} is inside the interpreter area " ++
      s!"(below 0x{hex 3 Layout.reservedTop})"
  | tooLong length available address =>
    s!"Program of {length} bytes does not fit in the {available} bytes available " ++
      s!"at 0x{hex 3 address}"
  | badTarget target origin =>
    s!"Program counter target 0x{hex 4 target} (from 0x{hex 3 origin}) " ++
      "is not an even address within memory"
  | callsFull limit => s!"Stack overflow (depth {limit})"
  | callsEmpty => "Stack underflow"
  | unknownOpcode opcode origin report =>
    "Emulation halted.\n\n" ++ About.intro ++ "Debug info:\n" ++ report ++ "\n\n" ++
      s!"Opcode 0x{hex 4 opcode.toNat} at address 0x{hex 3 origin} is not a valid instruction."

end Fault

end Chip8
