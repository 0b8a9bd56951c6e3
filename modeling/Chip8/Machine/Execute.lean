import Chip8.Machine.Alu
import Chip8.Machine.Sprite

/-! Execution of single instructions. An instruction makes its checks before its changes, so that one
that faults leaves the machine as it was. -/

namespace Chip8

namespace Machine

def skipIf (m : Machine) (condition : Bool) : Machine :=
  if condition then { m with next := m.next + 2 } else m

/-- Changes the resolution, which blanks the screen; nothing happens if it is already on. -/
def setResolution (m : Machine) (low : Bool) : Machine :=
  if m.lowRes = low then m
  else { m with
    display := if low then .lowResolution else .highResolution
    lowRes := low }

/-- The index register holds sixteen bits. -/
def wordOf (n : Int) : Int := n % 0x10000

def addIndex (m : Machine) (x : Register) : Machine :=
  let sum := m.i + (m.getV x).toNat
  let m := { m with i := wordOf sum }
  if m.dialect.indexOverflow then m.setFlag (0xFFF < sum) else m

/-- Where the index register stands after V0 to Vx have been transferred. -/
def indexAfter (d : Dialect) (i : Int) (x : Register) : Int :=
  if d.load then wordOf (i + x.val + if d.indexIncrement then 0 else 1) else i

def advanceIndex (m : Machine) (x : Register) : Machine :=
  { m with i := indexAfter m.dialect m.i x }

/-- Hundreds, tens and ones. -/
def digitsOf (b : UInt8) : List UInt8 := [b / 100, b / 10 % 10, b % 10]

/-- The registers with the first ones replaced. -/
def replaceFirst (v : Registers) (bytes : List UInt8) : Registers :=
  Vector.ofFn fun k : Fin 16 => bytes.getD k (v.get k)

def glyphAddress (b : UInt8) : Int := Layout.fontAddress + Layout.glyphSize * (b.toNat % 16)

def drawRandom (m : Machine) (x : Register) (mask : UInt8) : Machine :=
  let (byte, random) := m.random.next
  { m with random := random }.setV x (byte &&& mask)

/-- Earlier presses are forgotten, and the machine stays on this instruction. -/
def awaitKey (m : Machine) (x : Register) : Machine :=
  { m with
    keypad := m.keypad.clearLatch
    keyRegister := x
    phase := .awaitingKey
    next := m.pc }

end Machine

namespace Execution

def jump (target : Int) : Execution Unit := do
  let target ← liftExcept ((← get).checkTarget target)
  modify fun m => { m with next := target }

def call (target : Address) : Execution Unit := do
  let m ← get
  let _ ← liftExcept (m.checkTarget target.val)
  let calls ← liftExcept (m.calls.push m.next)
  modify fun m => { m with calls := calls }
  modify fun m => { m with next := target.val }

/-- The return address is checked before it leaves the stack. -/
def ret : Execution Unit := do
  jump (← liftExcept (← get).calls.peek)
  let (_, calls) ← liftExcept (← get).calls.pop
  modify fun m => { m with calls := calls }

/-- Writes a block to memory, once its span has been checked. -/
def store (address : Int) (block : List UInt8) : Execution Unit := do
  liftExcept ((← get).memory.checkSpan address block.length)
  modify fun m => { m with memory := m.memory.assign address (address + block.length) block }

def storeDecimal (x : Register) : Execution Unit := do
  let m ← get
  store m.i (Machine.digitsOf (m.getV x))

def dump (x : Register) : Execution Unit := do
  let m ← get
  store m.i (m.v.toList.take (x.val + 1))
  modify (·.advanceIndex x)

def fill (x : Register) : Execution Unit := do
  let m ← get
  let bytes ← liftExcept (m.memory.readBlock m.i (x.val + 1))
  modify fun m => { m with v := Machine.replaceFirst m.v bytes }
  modify (·.advanceIndex x)

end Execution

/-- What an instruction does to a machine whose `next` already points behind it. -/
def Instruction.effect : Instruction → Execution Unit
  | clear => modify fun m => { m with display := m.display.clear }
  | ret => Execution.ret
  | lowResolution => modify (·.setResolution true)
  | highResolution => modify (·.setResolution false)
  | jump target => Execution.jump target.val
  | call target => Execution.call target
  | skipIfByte x byte => modify fun m => m.skipIf (m.getV x == byte)
  | skipUnlessByte x byte => modify fun m => m.skipIf (m.getV x != byte)
  | skipIfEqual x y => modify fun m => m.skipIf (m.getV x == m.getV y)
  | setByte x byte => modify (·.setV x byte)
  | addByte x byte => modify fun m => m.setV x (m.getV x + byte)
  | alu op x y => modify (·.runAlu op x y)
  | skipUnlessEqual x y => modify fun m => m.skipIf (m.getV x != m.getV y)
  | setIndex target => modify fun m => { m with i := target.val }
  | jumpOffset target => do
    let m ← get
    Execution.jump ((m.getV (jumpRegister m.dialect target)).toNat + target.val)
  | random x mask => modify (·.drawRandom x mask)
  | draw x y height => Execution.draw x y height
  | skipIfKey x => modify fun m => m.skipIf (m.keypad.isDown (m.getV x).toNat)
  | skipUnlessKey x => modify fun m => m.skipIf (!m.keypad.isDown (m.getV x).toNat)
  | readDelay x => modify fun m => m.setV x m.timers.delay
  | awaitKey x => modify (·.awaitKey x)
  | setDelay x => modify fun m => { m with timers := m.timers.setDelay (m.getV x).toNat }
  | setSound x => modify fun m => { m with timers := m.timers.setSound (m.getV x).toNat }
  | addIndex x => modify (·.addIndex x)
  | glyph x => modify fun m => { m with i := Machine.glyphAddress (m.getV x) }
  | decimal x => Execution.storeDecimal x
  | dump x => Execution.dump x
  | fill x => Execution.fill x

/-- How an instruction ends on a machine. -/
def Machine.execute (m : Machine) (instruction : Instruction) : EStateM.Result Fault Machine Unit :=
  instruction.effect.run m

end Chip8
