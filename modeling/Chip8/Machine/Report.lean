import Chip8.Machine.Basic

/-! The machine in words: one line of registers for every traced instruction, and four more for the
report of a halt. -/

namespace Chip8.Machine

open Text

/-- All registers as one number, VF first. -/
def registerText (v : Registers) : String :=
  String.join (v.toList.reverse.map fun b => hex 2 b.toNat)

def registerLine (m : Machine) (instruction : String) : String :=
  "V: 0x" ++ registerText m.v ++ " I: 0x" ++ hex 4 m.i ++ " DT: 0x" ++ hex 2 m.timers.delay.toNat ++
    " ST: 0x" ++ hex 2 m.timers.sound.toNat ++ " PC: 0x" ++ hex 3 m.origin ++
    " OP: 0x" ++ hex 4 m.opcode.toNat ++ " IN: " ++ instruction

def callsText (m : Machine) : String :=
  match m.calls.items with
  | [] => " (Empty)"
  | items => String.join (items.map fun address => " 0x" ++ hex 3 address)

def keysText (m : Machine) : String :=
  match m.keypad.held with
  | [] => " (None)"
  | keys => String.join (keys.map fun key => " " ++ hex 1 key.val)

/-- Registers and the instruction; with `verbose` also calls, phase, keys and screen. -/
def report (m : Machine) (instruction : String) (verbose : Bool) : String :=
  if verbose then
    m.registerLine instruction ++
      "\nStack:" ++ m.callsText ++
      "\nState: " ++ m.phase.text ++
      "\nKeys:" ++ m.keysText ++
      "\nDisplay: " ++ toString m.display.width ++ "x" ++ toString m.display.height ++ ", " ++
        toString m.display.litCount ++ " pixels lit"
  else m.registerLine instruction

end Chip8.Machine
