import Chip8.CallStack
import Chip8.Dialect
import Chip8.Display
import Chip8.Font
import Chip8.Instruction
import Chip8.Keypad
import Chip8.Timers

/-! The machine as a whole: its state, power-on, reset and the loading of programs. -/

namespace Chip8

inductive Phase where
  | running
  /-- Instructions rest until a key is pressed. Timers, keypad and screen do not. -/
  | awaitingKey
  deriving DecidableEq, Repr

def Phase.text : Phase → String
  | running => "running"
  | awaitingKey => "awaiting key"

/-- An endless row of random bytes, and how many of them have been used. -/
structure ByteSource where
  byte : Nat → UInt8
  used : Nat := 0

/-- The next byte, and the source after it. -/
def ByteSource.next (s : ByteSource) : UInt8 × ByteSource :=
  (s.byte s.used, { s with used := s.used + 1 })

/-- The bytes of a list over and over; zeros if it is empty. -/
def ByteSource.cycle (bytes : List UInt8) : ByteSource where
  byte k := bytes.getD (k % bytes.length) 0

abbrev Registers := Vector UInt8 16

/-- The part of the machine that a reset and a new program set back. -/
structure Processor where
  v : Registers
  i : Int
  pc : Int
  /-- Where the last fetch began. -/
  origin : Int
  /-- Where the instruction that is being executed continues. -/
  next : Int
  /-- The opcode fetched last. -/
  opcode : UInt16
  phase : Phase
  /-- The register that receives an awaited key. -/
  keyRegister : Register
  /-- Instructions completed, and waits for a key begun. -/
  executed : Nat
  lowRes : Bool
  deriving DecidableEq

def Processor.startingAt (start : Int) : Processor where
  v := Vector.replicate 16 0
  i := 0
  pc := start
  origin := start
  next := start
  opcode := 0
  phase := .running
  keyRegister := Register.first
  executed := 0
  lowRes := true

structure Machine extends Processor where
  memory : Memory
  calls : CallStack
  display : Display
  keypad : Keypad
  timers : Timers
  dialect : Dialect
  /-- Instructions may change to the high resolution and back. -/
  hires : Bool
  /-- Every instruction is reported before it is executed. -/
  traced : Bool
  random : ByteSource

namespace Machine

/-- Memory at power-on: the system font, and zeros everywhere else. -/
def bareMemory : Memory :=
  (Memory.zeros Layout.memorySize).putAll Layout.fontAddress systemFont

/-- A machine at power-on. -/
def new (dialect : Dialect) (hires traced : Bool) (random : ByteSource)
    (start : Int := Layout.programStart) : Machine where
  toProcessor := .startingAt start
  memory := bareMemory
  calls := {}
  display := .lowResolution
  keypad := .released
  timers := {}
  dialect := dialect
  hires := hires
  traced := traced
  random := random

/-- Back to power-on, part by part: memory is zeroed and gets its font again, calls and keys are
cleared, and so on. The dialect and the rest of the configuration stay, and so does the place in the
row of random bytes. -/
def reset (m : Machine) (start : Int := Layout.programStart) : Machine :=
  { m with
    toProcessor := .startingAt start
    memory := (m.memory.zeroFrom 0).putAll Layout.fontAddress systemFont
    calls := m.calls.clear
    display := .lowResolution
    keypad := m.keypad.releaseAll
    timers := {} }

/-- Loads a program and makes the machine ready to run it. Held keys stay held. -/
def loadProgram (m : Machine) (program : List UInt8) (address : Int := Layout.programStart) :
    Except Fault Machine := do
  let memory ← m.memory.load program address
  return { m with
    toProcessor := .startingAt address
    memory := memory
    calls := m.calls.clear
    timers := {}
    display := .lowResolution }

def tick (m : Machine) : Machine := { m with timers := m.timers.tick }

def setKey (m : Machine) (key : Int) (pressed : Bool) : Except Failure Machine := do
  return { m with keypad := ← m.keypad.set key pressed }

/-- The opcode at the program counter. -/
def fetch (m : Machine) : Except Fault UInt16 := m.memory.read16 m.pc

/-- Opcodes lie at even addresses, and wholly within memory. -/
def isTarget (address : Int) : Bool :=
  address % 2 == 0 && 0 ≤ address && address ≤ Layout.highestPC

def checkTarget (m : Machine) (address : Int) : Except Fault Int :=
  if isTarget address then .ok address else .error (.badTarget address m.origin)

def getV (m : Machine) (x : Register) : UInt8 := m.v.get x

def setV (m : Machine) (x : Register) (value : UInt8) : Machine :=
  { m with v := m.v.set x value }

/-- Writes the flag register. -/
def setFlag (m : Machine) (on : Bool) : Machine := m.setV Register.flag (if on then 1 else 0)

end Machine

/-- A run of checks and changes on a machine. Nothing is undone when a check fails: the machine stays
as the changes before it have left it. -/
abbrev Execution := EStateM Fault Machine

end Chip8
