import Chip8.Host.Command
import Chip8.Keypad

/-! Input devices. A device is polled once a frame: it passes on to the keypad what happened since
the last poll, and keeps the commands for the host until they are taken. -/

namespace Chip8

/-- What a poll leaves behind; its result tells whether the user asked to quit. -/
structure Poll (ι : Type) where
  device : ι
  keypad : Keypad
  result : Except Failure Bool

class InputDevice (ι : Type) where
  poll : ι → Keypad → Poll ι
  /-- The commands that have gathered, and the device without them. -/
  takeCommands : ι → List HostCommand × ι

end Chip8
