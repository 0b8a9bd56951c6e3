import Chip8.Fault

/-! Return addresses of the calls in progress. -/

namespace Chip8

structure CallStack where
  /-- The addresses, that of the innermost call last. -/
  items : List Int := []
  /-- No more than this many are kept. -/
  limit : Int := Layout.callDepth
  deriving DecidableEq, Repr

namespace CallStack

def isFull (s : CallStack) : Bool := s.limit ≤ s.items.length

def push (s : CallStack) (address : Int) : Except Fault CallStack :=
  if s.isFull then .error (.callsFull s.limit)
  else .ok { s with items := s.items ++ [address] }

/-- The address that the next return goes to. -/
def peek (s : CallStack) : Except Fault Int :=
  match s.items.getLast? with
  | some address => .ok address
  | none => .error .callsEmpty

def pop (s : CallStack) : Except Fault (Int × CallStack) := do
  let address ← s.peek
  return (address, { s with items := s.items.dropLast })

def clear (s : CallStack) : CallStack := { s with items := [] }

end CallStack

end Chip8
