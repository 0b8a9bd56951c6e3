import Chip8.Failure

/-! What is said of an option that can have a value. -/

namespace Chip8

inductive Setting (α : Type) where
  | absent
  /-- The option is there, but without a value. -/
  | empty
  | value (a : α)
  deriving DecidableEq, Repr

namespace Setting

variable {α : Type}

/-- The setting that a written value makes; there is none if the value cannot be read. -/
def read (readValue? : String → Option α) : Option String → Option (Setting α)
  | none => some .empty
  | some text => (readValue? text).map .value

/-- The value of a setting that is needed; `missing` is what is needed. -/
def get (s : Setting α) (missing : MissingValue) (default : α) : Except Failure α :=
  match s with
  | absent => .ok default
  | empty => .error (.missing missing)
  | value a => .ok a

/-- The value, if there is one. -/
def value? : Setting α → Option α
  | value a => some a
  | _ => none

/-- The decision for yes or no. A setting without a value says no. -/
def decision? : Setting Bool → Option Bool
  | absent => none
  | empty => some false
  | value on => some on

end Setting

end Chip8
