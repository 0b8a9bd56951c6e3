import Chip8.Instruction.Decode
import Chip8.Machine.Execute
import Chip8.Machine.Report

/-! One step of the machine. A step that faults still has a machine afterwards: it has recorded what
it fetched, and a successor that is no place for an opcode is noticed only after the instruction. -/

namespace Chip8

structure Outcome where
  machine : Machine
  fault : Option Fault := none
  /-- The line that a traced machine prints before it executes an instruction. -/
  trace : Option String := none

/-- A run on a machine as an outcome. -/
def Outcome.ofResult (trace : Option String := none) :
    EStateM.Result Fault Machine Unit → Outcome
  | .ok () machine => { machine := machine, trace := trace }
  | .error fault machine => { machine := machine, fault := fault, trace := trace }

namespace Execution

/-- Ends a wait for a key if there was a press since it began. -/
def takeKey : Execution Unit := do
  let m ← get
  match m.keypad.latch with
  | none => return
  | some key =>
    let pc ← liftExcept (m.checkTarget (m.pc + 2))
    modify (·.setV m.keyRegister (UInt8.ofNat key))
    modify fun m => { m with
      phase := .running
      pc := pc
      executed := m.executed + 1 }

/-- Takes up the opcode at the program counter. -/
def fetch : Execution UInt16 := do
  modify fun m => { m with origin := m.pc }
  let opcode ← liftExcept (← get).fetch
  modify fun m => { m with opcode := opcode, next := m.pc + 2 }
  return opcode

/-- Moves on to the successor of an instruction that has been executed. -/
def advance : Execution Unit := do
  let m ← get
  let pc ← liftExcept (m.checkTarget m.next)
  modify fun m => { m with pc := pc, executed := m.executed + 1 }

end Execution

namespace Machine

/-- Executes an instruction that has been fetched. -/
def perform (m : Machine) (instruction : Instruction) : Outcome :=
  let trace := if m.traced then some (m.report (instruction.text m.dialect) false) else none
  .ofResult trace ((do instruction.effect; Execution.advance).run m)

def step (m : Machine) : Outcome :=
  match m.phase with
  | .awaitingKey => .ofResult none (Execution.takeKey.run m)
  | .running =>
    match Execution.fetch.run m with
    | .error fault m => { machine := m, fault := fault }
    | .ok opcode m =>
      match Instruction.decode? m.hires opcode with
      | none =>
        { machine := m, fault := some (.unknownOpcode opcode m.origin (m.report "???" true)) }
      | some instruction => m.perform instruction

def isAwaitingKey (m : Machine) : Bool := m.phase == .awaitingKey

end Machine

end Chip8
