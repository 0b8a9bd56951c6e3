import Chip8.Scheduler.Basic

/-! Paying out time. Elapsed time is added to both clocks, and every whole interval that a clock
holds becomes an event: of two that are due, the one that has waited longer comes first, and a frame
before an instruction if both have waited equally long. -/

namespace Chip8.Scheduler

open TimeLine

variable {τ ι : Type} [Add τ] [Sub τ] [LE τ] [LT τ] [DecidableLE τ] [DecidableLT τ] [TimeLine τ]

/-- The time between two instructions. -/
def coreInterval (s : Scheduler τ ι) : τ := ratio 1 s.speed

/-- Elapsed time as far as it counts: never below zero, and at most the backlog. -/
def clampElapsed (elapsed : τ) : τ :=
  let elapsed := if elapsed < zero then zero else elapsed
  if maxBacklog < elapsed then maxBacklog else elapsed

/-- Adds elapsed time to the clocks that run. -/
def charge (s : Scheduler τ ι) (elapsed : τ) : Scheduler τ ι :=
  let elapsed := clampElapsed elapsed
  { s with
    timer := s.timer + elapsed
    core := if s.paused then s.core else s.core + elapsed }

def coreDue (s : Scheduler τ ι) : Bool := s.coreInterval ≤ s.core + tolerance

def frameDue (s : Scheduler τ ι) : Bool := frameInterval ≤ s.timer + tolerance

inductive Event where
  | instruction
  | frame
  deriving DecidableEq, Repr

/-- The event that comes next, if one is due. -/
def dueEvent (s : Scheduler τ ι) : Option Event :=
  if s.frameDue && (!s.coreDue || s.core - s.coreInterval ≤ s.timer - frameInterval) then
    some .frame
  else if s.coreDue then some .instruction
  else none

/-- Takes the interval of an event from its clock. -/
def spend (s : Scheduler τ ι) : Event → Scheduler τ ι
  | .frame => { s with timer := s.timer - frameInterval }
  | .instruction => { s with core := s.core - s.coreInterval }

variable [InputDevice ι]

/-- Performs an event. Answers whether the user asked to quit. -/
def perform (s : Scheduler τ ι) : Event → Scheduler τ ι × Except Failure Bool
  | .frame => (s.spend .frame).frame
  | .instruction =>
    match (s.spend .instruction).stepMachine with
    | (s, .ok ()) => (s, .ok false)
    | (s, .error failure) => (s, .error failure)

/-- Performs events while any is due, `fuel` at most. -/
def payOut : Nat → Scheduler τ ι → Scheduler τ ι × Except Failure Bool
  | 0, s => (s, .ok false)
  | fuel + 1, s =>
    match s.dueEvent with
    | none => (s, .ok false)
    | some event =>
      match s.perform event with
      | (s, .ok false) => payOut fuel s
      | stopped => stopped

/-- More events than can be due. A frame may set the instruction clock back to zero when it lies a
little below, so each frame may make as many instructions due as fit into the tolerance. -/
def eventBound (s : Scheduler τ ι) : Nat :=
  (fits (s.timer + tolerance) frameInterval + 2) *
    (fits (s.core + tolerance) s.coreInterval + fits tolerance s.coreInterval + 4)

/-- Lets time pass: performs everything that is due after it. -/
def advance (s : Scheduler τ ι) (elapsed : τ) : Scheduler τ ι × Except Failure Bool :=
  let s := s.charge elapsed
  payOut s.eventBound s

/-- The time until something is due, as long as the clocks run as they do now. -/
def timeUntilNext (s : Scheduler τ ι) : τ :=
  let frame := frameInterval - s.timer
  let core := s.coreInterval - s.core
  let wait := if !s.paused && decide (core < frame) then core else frame
  if zero < wait then wait else zero

end Chip8.Scheduler
