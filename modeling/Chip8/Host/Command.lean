/-! What the user asks of the host rather than of the program. -/

namespace Chip8

inductive HostCommand where
  | togglePause
  /-- Execute one instruction, if the instruction clock is paused. -/
  | step
  deriving DecidableEq, Repr

def HostCommand.text : HostCommand → String
  | togglePause => "toggle pause"
  | step => "step"

def HostCommand.ofText? : String → Option HostCommand
  | "toggle pause" => some togglePause
  | "step" => some step
  | _ => none

theorem HostCommand.ofText?_text (c : HostCommand) : ofText? c.text = some c := by
  cases c <;> rfl

end Chip8
