import Chip8.Scheduler.Advance
import Chip8.Scheduler.Clock

/-! A whole session, from readings of a clock. -/

namespace Chip8.Scheduler

open TimeLine

variable {τ ι : Type} [Add τ] [Sub τ] [LE τ] [LT τ] [DecidableLE τ] [DecidableLT τ] [TimeLine τ]
  [InputDevice ι]

/-- Lets the host rest until shortly before the next event. -/
def rest (s : Scheduler τ ι) : Scheduler τ ι :=
  let wait := s.timeUntilNext
  if wakeMargin < wait then s.call (.sleep (wait - wakeMargin)) else s

/-- Lets time pass and then rests. Answers whether the user asked to quit. -/
def turn (s : Scheduler τ ι) (elapsed : τ) : Scheduler τ ι × Except Failure Bool :=
  match s.advance elapsed with
  | (s, .ok false) => (s.rest, .ok false)
  | stopped => stopped

/-- A session of its own. It ends when the user quits or something fails. -/
def run (s : Scheduler τ ι) (clock : Clock τ) : Scheduler τ ι × Except Failure Unit :=
  clock.drive turn s

end Chip8.Scheduler
