import Chip8.Host.SurfaceView
import Chip8.Scheduler.Run

/-! A session: a scheduler, and the view that shows what it draws. -/

namespace Chip8

structure Session (τ ι : Type) where
  scheduler : Scheduler τ ι
  view : SurfaceView
  /-- The calls of the scheduler that have been served. -/
  served : Array (HostCall τ) := #[]

namespace Session

variable {τ ι : Type}

/-- Serves calls up to the first that fails. -/
def serve (host : Host) (s : Session τ ι) :
    List (HostCall τ) → Session τ ι × Except Failure Unit
  | [] => (s, .ok ())
  | call :: rest =>
    match s.view.serve host call with
    | .error failure => (s, .error failure)
    | .ok view => { s with view := view, served := s.served.push call }.serve host rest

/-- The calls served since they were last taken. -/
def takeServed (s : Session τ ι) : List (HostCall τ) × Session τ ι :=
  (s.served.toList, { s with served := #[] })

variable [Add τ] [Sub τ] [LE τ] [LT τ] [DecidableLE τ] [DecidableLT τ] [TimeLine τ] [InputDevice ι]

/-- Lets time pass. A call that cannot be served ends the session, whatever came after it. -/
def turn (host : Host) (s : Session τ ι) (elapsed : τ) : Session τ ι × Except Failure Bool :=
  let (scheduler, result) := s.scheduler.turn elapsed
  let (calls, scheduler) := scheduler.takeLog
  match { s with scheduler := scheduler }.serve host calls with
  | (s, .ok ()) => (s, result)
  | (s, .error failure) => (s, .error failure)

/-- Runs until the user quits or something fails. -/
def run (host : Host) (s : Session τ ι) (clock : Clock τ) : Session τ ι × Except Failure Unit :=
  clock.drive (turn host) s

end Session

end Chip8
