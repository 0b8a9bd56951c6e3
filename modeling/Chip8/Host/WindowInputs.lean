import Chip8.Host.InputDevice
import Chip8.Host.Keymap

/-! Input from a window, which reports both the press and the release of a key. -/

namespace Chip8

inductive WindowEvent where
  | down (code : Int)
  | up (code : Int)
  | quit
  | other
  deriving DecidableEq, Repr

structure WindowInputs where
  keymap : Keymap
  /-- Commands that nobody has taken yet. -/
  commands : List HostCommand := []
  /-- Events that wait for the next poll. -/
  waiting : List WindowEvent := []
  deriving DecidableEq, Repr

namespace WindowInputs

def escape : Int := 27

/-- The codes of F5 and F6 ask something of the host. -/
def hostKey? (code : Int) : Option HostCommand :=
  if code = 1073741886 then some .togglePause
  else if code = 1073741887 then some .step
  else none

/-- Presses or releases the key of a code, if it has one. -/
def putKey (keymap : Keymap) (keypad : Keypad) (code : Int) (pressed : Bool) : Keypad :=
  match keymap.key? code with
  | some key => keypad.put key pressed
  | none => keypad

/-- Handles one event. Answers whether it asks to quit. The escape key and the keys of the host come
before the keymap, but only when they are pressed. -/
def handle (d : WindowInputs) (keypad : Keypad) : WindowEvent → WindowInputs × Keypad × Bool
  | .quit => (d, keypad, true)
  | .other => (d, keypad, false)
  | .up code => (d, putKey d.keymap keypad code false, false)
  | .down code =>
    if code = escape then (d, keypad, true)
    else match hostKey? code with
      | some command => ({ d with commands := d.commands ++ [command] }, keypad, false)
      | none => (d, putKey d.keymap keypad code true, false)

/-- Handles events in order, to the last one even if the user asks to quit. -/
def handleAll (d : WindowInputs) (keypad : Keypad) :
    List WindowEvent → WindowInputs × Keypad × Bool
  | [] => (d, keypad, false)
  | event :: rest =>
    let (d, keypad, quit) := d.handle keypad event
    let (d, keypad, quitLater) := d.handleAll keypad rest
    (d, keypad, quit || quitLater)

instance : InputDevice WindowInputs where
  poll d keypad :=
    let (d, keypad, quit) := { d with waiting := [] }.handleAll keypad d.waiting
    ⟨d, keypad, .ok quit⟩
  takeCommands d := (d.commands, { d with commands := [] })

end WindowInputs

end Chip8
