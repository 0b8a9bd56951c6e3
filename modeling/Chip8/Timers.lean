import Chip8.Memory

/-! The delay and the sound timer: both count down to zero, one step a tick. -/

namespace Chip8

structure Timers where
  delay : UInt8 := 0
  sound : UInt8 := 0
  deriving DecidableEq, Repr

namespace Timers

def countDown (t : UInt8) : UInt8 := if t = 0 then 0 else t - 1

def tick (t : Timers) : Timers := ⟨countDown t.delay, countDown t.sound⟩

def setDelay (t : Timers) (value : Int) : Timers := { t with delay := lowByte value }

def setSound (t : Timers) (value : Int) : Timers := { t with sound := lowByte value }

/-- Whether the buzzer should sound. -/
def soundActive (t : Timers) : Bool := t.sound != 0

end Timers

end Chip8
