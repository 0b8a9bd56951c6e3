import Chip8.Failure

/-! Interpreters of different years disagree about a handful of instructions. Each disagreement is a
switch here, and a dialect says how all of them are set. -/

namespace Chip8

inductive Switch where
  | shift
  | shiftFlag
  | load
  | indexIncrement
  | indexOverflow
  | jump
  | logic
  | clip
  deriving DecidableEq, Repr

namespace Switch

/-- All switches, in the order in which they are offered. -/
def all : List Switch :=
  [shift, shiftFlag, load, indexIncrement, indexOverflow, jump, logic, clip]

def name : Switch → String
  | shift => "shift"
  | shiftFlag => "shift_flag"
  | load => "load"
  | indexIncrement => "index_increment"
  | indexOverflow => "index_overflow"
  | jump => "jump"
  | logic => "logic"
  | clip => "clip"

def ofName? (text : String) : Option Switch := all.find? (·.name == text)

theorem mem_all (s : Switch) : s ∈ all := by cases s <;> decide

theorem ofName?_name (s : Switch) : ofName? s.name = some s := by cases s <;> decide

end Switch

structure Dialect where
  /-- 8xy6 and 8xyE shift Vx in place instead of taking Vy. -/
  shift : Bool := false
  /-- 8xy6 and 8xyE write the flag before the result. -/
  shiftFlag : Bool := false
  /-- Fx55 and Fx65 move I past the registers transferred. -/
  load : Bool := true
  /-- They move it by x only, instead of x + 1. -/
  indexIncrement : Bool := false
  /-- Fx1E sets the flag when I passes 0xFFF. -/
  indexOverflow : Bool := false
  /-- Bnnn adds Vx, with x the top digit of nnn, instead of V0. -/
  jump : Bool := false
  /-- 8xy1, 8xy2 and 8xy3 clear the flag. -/
  logic : Bool := false
  /-- Sprites end at the edges of the screen instead of wrapping around. -/
  clip : Bool := false
  deriving DecidableEq, Repr

/-- What is asked of switches, by name and in order; a switch may be asked to stay as it is. -/
abbrev SwitchSettings := List (String × Option Bool)

namespace Dialect

def get (d : Dialect) : Switch → Bool
  | .shift => d.shift
  | .shiftFlag => d.shiftFlag
  | .load => d.load
  | .indexIncrement => d.indexIncrement
  | .indexOverflow => d.indexOverflow
  | .jump => d.jump
  | .logic => d.logic
  | .clip => d.clip

def set (d : Dialect) (s : Switch) (on : Bool) : Dialect :=
  match s with
  | .shift => { d with shift := on }
  | .shiftFlag => { d with shiftFlag := on }
  | .load => { d with load := on }
  | .indexIncrement => { d with indexIncrement := on }
  | .indexOverflow => { d with indexOverflow := on }
  | .jump => { d with jump := on }
  | .logic => { d with logic := on }
  | .clip => { d with clip := on }

@[simp] theorem get_set_self (d : Dialect) (s : Switch) (on : Bool) :
    (d.set s on).get s = on := by
  cases s <;> rfl

theorem get_set_of_ne (d : Dialect) {s t : Switch} (h : t ≠ s) (on : Bool) :
    (d.set s on).get t = d.get t := by
  cases s <;> cases t <;> first | rfl | exact absurd rfl h

/-- Applies settings up to the first name that is no switch. -/
def apply (d : Dialect) : SwitchSettings → Dialect × Option Failure
  | [] => (d, none)
  | (name, value) :: rest =>
    match Switch.ofName? name with
    | none => (d, some (.unknownSwitch name))
    | some s => (match value with
        | some on => d.set s on
        | none => d).apply rest

/-- A dialect goes by this name among its settings, so no setting may have it. -/
def ownName : String := "self"

/-- Applies settings. If one of them has the reserved name, none is applied. -/
def update (d : Dialect) (settings : SwitchSettings) : Dialect × Option Failure :=
  if settings.any (·.1 == ownName) then (d, some .reservedName) else d.apply settings

def ofSettings (settings : SwitchSettings) : Except Failure Dialect :=
  match ({} : Dialect).update settings with
  | (d, none) => .ok d
  | (_, some failure) => .error failure

/-- The option that sets a switch on the command line. -/
def optionName (s : Switch) : String := s.name ++ "_quirks"

/-- The dialect of a launch: every switch may have an option, and other options do not matter. -/
def ofOptions (option? : String → Option Bool) : Dialect :=
  Switch.all.foldl (fun d s => match option? (optionName s) with
    | some on => d.set s on
    | none => d) {}

def toList (d : Dialect) : List (Switch × Bool) := Switch.all.map fun s => (s, d.get s)

def text (d : Dialect) : String :=
  let setting := fun (s : Switch × Bool) => s.1.name ++ (if s.2 then "=True" else "=False")
  "Quirks(" ++ String.intercalate ", " (d.toList.map setting) ++ ")"

end Dialect

end Chip8
