import Chip8.Host.InputDevice
import Chip8.Host.Keymap
import Chip8.Scheduler.TimeLine

/-! Input from a terminal, which knows characters only and never tells when a key is released. A key
counts as held for a short time after its character; repeats of the character prolong it. -/

namespace Chip8

structure TerminalInputs (τ : Type) where
  keymap : Keymap
  /-- Keys whose characters have been read, oldest first; nothing stands for a wish to quit. -/
  queue : List (Option (Fin Layout.keyCount)) := []
  /-- When each key is released; zero for a key that is not held. -/
  releases : Vector τ Layout.keyCount
  /-- No more characters are read. -/
  stopping : Bool := false
  /-- The time of the next poll. -/
  now : τ

namespace TerminalInputs

open TimeLine

variable {τ : Type} [TimeLine τ]

/-- The queue holds this many keys; further ones are lost. -/
def capacity : Nat := 16

/-- How long a key counts as held after its character. -/
def holdTime : τ := ratio 1 5

def new (keymap : Keymap) : TerminalInputs τ where
  keymap := keymap
  releases := Vector.replicate _ zero
  now := zero

/-! ## Reading characters -/

/-- Escape, and the interrupt character. -/
def isQuit (code : Int) : Bool := code == 27 || code == 3

/-- Queues the key of a character, if it has one and there is room. -/
def enqueue (d : TerminalInputs τ) (code : Int) : TerminalInputs τ :=
  match d.keymap.key? code with
  | some key =>
    if d.queue.length < capacity then { d with queue := d.queue ++ [some key] } else d
  | none => d

/-- Reads characters until there are none left or the user asks to quit. A negative code means that
there was none to read. Answers how many are left unread. -/
def readChars (d : TerminalInputs τ) : List Int → TerminalInputs τ × Except Failure Nat
  | [] => (d, .ok 0)
  | code :: rest =>
    if d.stopping then (d, .ok (rest.length + 1))
    else if code < 0 then d.readChars rest
    else match Keymap.lowerCode code with
      | .error cause => (d, .error (.number cause))
      | .ok lower =>
        if isQuit lower then ({ d with queue := d.queue ++ [none] }, .ok rest.length)
        else (d.enqueue lower).readChars rest

/-- Asks the reading of characters to end. -/
def stop (d : TerminalInputs τ) : TerminalInputs τ := { d with stopping := true }

/-! ## Polls -/

/-- Sets the time at which a key is released. -/
def setRelease (d : TerminalInputs τ) (key : Fin Layout.keyCount) (time : τ) : TerminalInputs τ :=
  { d with releases := d.releases.set key time key.isLt }

variable [Add τ]

/-- Presses the keys of the queue, up to a wish to quit. Answers whether there was one. -/
def drain (d : TerminalInputs τ) (keypad : Keypad) :
    List (Option (Fin Layout.keyCount)) → TerminalInputs τ × Keypad × Bool
  | [] => ({ d with queue := [] }, keypad, false)
  | none :: rest => ({ d with queue := rest }, keypad, true)
  | some key :: rest =>
    (d.setRelease key (d.now + holdTime)).drain (keypad.put key true) rest

variable [LE τ] [LT τ] [DecidableLE τ] [DecidableLT τ]

/-- Whether a key is held, and its time has come. -/
def isOver (d : TerminalInputs τ) (key : Fin Layout.keyCount) : Bool :=
  let release := d.releases.get key
  (decide (zero < release) || decide (release < zero)) && decide (release ≤ d.now)

/-- Releases the given keys as far as their time has come. -/
def releaseOver (d : TerminalInputs τ) (keypad : Keypad) :
    List (Fin Layout.keyCount) → TerminalInputs τ × Keypad
  | [] => (d, keypad)
  | key :: rest =>
    if d.isOver key then
      (d.setRelease key zero).releaseOver (keypad.put key false) rest
    else d.releaseOver keypad rest

/-- A poll: presses come before releases, and a wish to quit leaves out the latter. -/
def poll (d : TerminalInputs τ) (keypad : Keypad) : TerminalInputs τ × Keypad × Bool :=
  match d.drain keypad d.queue with
  | (d, keypad, true) => (d, keypad, true)
  | (d, keypad, false) =>
    let (d, keypad) := d.releaseOver keypad (List.finRange _)
    (d, keypad, false)

instance : InputDevice (TerminalInputs τ) where
  poll d keypad :=
    let (d, keypad, quit) := d.poll keypad
    ⟨d, keypad, .ok quit⟩
  takeCommands d := ([], d)

end TerminalInputs

end Chip8
