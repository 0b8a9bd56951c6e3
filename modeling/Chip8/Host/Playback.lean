import Chip8.Host.InputDevice

/-! Recorded input: what happens depends on the number of the poll alone. -/

namespace Chip8

inductive InputAction where
  | key (index : Int) (pressed : Bool)
  | command (c : HostCommand)
  | quit
  deriving DecidableEq, Repr

structure Playback where
  /-- The actions of each poll; the first poll has number one. -/
  script : Nat → List InputAction
  polls : Nat := 0
  commands : List HostCommand := []

namespace Playback

/-- Nothing ever happens. -/
def silent : Playback where
  script _ := []

/-- The user quits at a given poll, if at any. -/
def quitting (poll : Option Nat) : Playback where
  script n := if poll = some n then [.quit] else []

/-- Performs the actions of a poll in order; `quit` tells whether one before asked to quit. -/
def perform (device : Playback) (keypad : Keypad) (quit : Bool) :
    List InputAction → Poll Playback
  | [] => ⟨device, keypad, .ok quit⟩
  | .key index pressed :: rest =>
    match keypad.set index pressed with
    | .ok keypad => device.perform keypad quit rest
    | .error failure => ⟨device, keypad, .error failure⟩
  | .command c :: rest =>
    { device with commands := device.commands ++ [c] }.perform keypad quit rest
  | .quit :: rest => device.perform keypad true rest

instance : InputDevice Playback where
  poll device keypad :=
    let device := { device with polls := device.polls + 1 }
    device.perform keypad false (device.script device.polls)
  takeCommands device := (device.commands, { device with commands := [] })

end Playback

end Chip8
