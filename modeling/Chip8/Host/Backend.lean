import Chip8.Host.Audio
import Chip8.Setting

/-! The choice of where a session takes place: in a window, in a terminal, or nowhere to be seen. -/

namespace Chip8

inductive Surface where
  | window
  | terminal
  | headless
  deriving DecidableEq, Repr

/-- What shows the picture and takes the input, and what makes the sound. -/
structure Backend where
  surface : Surface
  audio : AudioKind
  deriving DecidableEq, Repr

/-- Which of the host's libraries can be used. -/
structure Libraries where
  window : Bool := true
  terminal : Bool := true
  deriving DecidableEq, Repr

namespace Backend

/-- A window plays a tone unless it is muted. -/
def window (mute : Option Bool) : Backend :=
  ⟨.window, if mute = some true then .silent else .tone⟩

/-- A terminal beeps only on request. -/
def terminal (mute : Option Bool) : Backend :=
  ⟨.terminal, if mute = some false then .bell else .silent⟩

def headless : Backend := ⟨.headless, .silent⟩

/-- The name that is set. A setting without a value is a list without names. -/
def nameOf : Setting String → Option String
  | .absent => none
  | .empty => some "[]"
  | .value name => some name

/-- The backend of a name. Without a name the window is preferred, then the terminal. -/
def select (libraries : Libraries) (name : Option String) (mute : Option Bool) :
    Except BackendError Backend :=
  match name with
  | none =>
    if libraries.window then .ok (window mute)
    else if libraries.terminal then .ok (terminal mute)
    else .error .noLibrary
  | some "pygame" => if libraries.window then .ok (window mute) else .error .noWindowLibrary
  | some "curses" =>
    if libraries.terminal then .ok (terminal mute) else .error .noTerminalLibrary
  | some "null" => .ok headless
  | some name => .error (.unknown name)

end Backend

end Chip8
