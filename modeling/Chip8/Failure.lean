import Chip8.Fault

/-! Everything that can fail between the command line and the machine. -/

namespace Chip8

/-- A number that does not fit the place it is meant for. -/
inductive NumberError where
  /-- Too small or too large for a byte, a length, a character or a count of samples. -/
  | range
  /-- Beyond any index, any floating-point number, or what is read as a character code. -/
  | overflow
  /-- More bytes than there is memory for. -/
  | memory
  | divisionByZero
  /-- Lower case makes more than one character of it. -/
  | notOneCharacter
  deriving DecidableEq, Repr

inductive KeymapError where
  | count
  | notInteger
  | duplicate
  deriving DecidableEq, Repr

inductive PaletteError where
  | count
  | length
  | notHexadecimal
  deriving DecidableEq, Repr

/-- Why no set of plugins can be chosen. -/
inductive BackendError where
  | noWindowLibrary
  | noTerminalLibrary
  | noLibrary
  | unknown (name : String)
  deriving DecidableEq, Repr

/-- Why there is no window, or no picture in it. -/
inductive WindowError where
  /-- The host does not take this for a size. -/
  | notASize
  | negative
  | tooLarge
  | closed
  deriving DecidableEq, Repr

/-- What is needed where an option has no value. -/
inductive MissingValue where
  | number
  | text
  deriving DecidableEq, Repr

inductive Failure where
  | fault (cause : Fault)
  | noSuchKey (key : Int)
  | emptyScreen
  | unknownSwitch (name : String)
  /-- A setting has a name that settings must not have. -/
  | reservedName
  | clockTooSlow
  | keymap (cause : KeymapError)
  | palette (cause : PaletteError)
  | backend (cause : BackendError)
  | window (cause : WindowError)
  /-- The terminal has no place for what it is asked to show. -/
  | terminal
  | missing (value : MissingValue)
  | number (cause : NumberError)
  /-- A null character in text that the host takes to end there. -/
  | nullCharacter
  | fileMissing
  /-- There is a directory in the place of a file. -/
  | directory
  | clockStopped
  deriving DecidableEq, Repr

instance : Coe Fault Failure := ⟨.fault⟩

def KeymapError.message : KeymapError → String
  | count => "Incorrect number of keys defined -- 16 required.  Use commas to split numbers"
  | notInteger => "Defined keys are not all integer values"
  | duplicate => "Duplicate keys defined"

def PaletteError.message : PaletteError → String
  | count => "Too many palette colours defined."
  | length => "Palette colours must all be 6 hex digits long."
  | notHexadecimal => "Invalid palette colour defined."

def BackendError.message : BackendError → String
  | noWindowLibrary => "PyGame does not appear to be installed."
  | noTerminalLibrary => "Curses (or Windows-Curses) does not appear to be installed."
  | noLibrary => "Neither PyGame nor Curses (or Windows-Curses) appear to be installed."
  | unknown name => s!"Unknown renderer '{name}'"

/-- The wording of a failure. What the host refuses fails without one. -/
def Failure.message? : Failure → Option String
  | fault cause => some cause.message
  | noSuchKey key => some s!"Key 0x{Text.hex 0 key} does not exist on the keypad"
  | emptyScreen => some "Display must be at least one pixel in each direction"
  | unknownSwitch name => some s!"Unknown quirk '{name}'"
  | clockTooSlow => some "Clock speed must be at least one instruction per second"
  | keymap cause => some cause.message
  | palette cause => some cause.message
  | backend cause => some cause.message
  | reservedName | window _ | terminal | missing _ | number _ | nullCharacter => none
  | fileMissing | directory | clockStopped => none

end Chip8
