import Chip8.Host.InputDevice
import Chip8.Machine.Step
import Chip8.Scheduler.TimeLine

/-! The scheduler drives a machine by two clocks. One executes instructions at the chosen speed; the
other makes sixty frames a second and never stops: each frame polls the inputs, ticks the timers,
switches the buzzer and shows the picture if anything was drawn. -/

namespace Chip8

/-- What the scheduler asks of the host, and the lines that the machine prints. -/
inductive HostCall (τ : Type) where
  | title (text : String)
  | resolution (width height : Nat)
  | draw (picture : Picture)
  | refresh
  | buzzer (on : Bool)
  | sleep (span : τ)
  | print (line : String)
  deriving Repr

structure Scheduler (τ ι : Type) where
  machine : Machine
  inputs : ι
  /-- Instructions a second. -/
  speed : Nat
  /-- Time that the instruction clock has yet to use. -/
  core : τ
  /-- Time that the frames have yet to use. -/
  timer : τ
  paused : Bool
  /-- What the buzzer was last told. -/
  buzzer : Bool := false
  /-- The screen size that the host was last told. -/
  shown : Option (Nat × Nat) := none
  frames : Nat := 0
  /-- Pictures shown since the last report. -/
  drawn : Nat := 0
  /-- What the machine had counted at the last report. -/
  reported : Nat := 0
  /-- The calls made so far. -/
  log : Array (HostCall τ) := #[]

namespace Scheduler

variable {τ ι : Type}

def defaultSpeed : Nat := 700

def call (s : Scheduler τ ι) (c : HostCall τ) : Scheduler τ ι := { s with log := s.log.push c }

/-- The calls made since they were last taken. -/
def takeLog (s : Scheduler τ ι) : List (HostCall τ) × Scheduler τ ι :=
  (s.log.toList, { s with log := #[] })

/-- Tells the host how fast pictures and instructions follow each other. -/
def report (s : Scheduler τ ι) (pictures instructions : Int) : Scheduler τ ι :=
  s.call (.title s!"{About.name} - {pictures} FPS, {instructions} OPS")

/-! ## The picture and the buzzer -/

/-- Shows the picture if anything was drawn since it was last shown. -/
def render (s : Scheduler τ ι) : Scheduler τ ι :=
  let (dirty, display) := s.machine.display.consumeDirty
  let s := { s with machine := { s.machine with display := display } }
  if dirty then
    let s := if s.shown = some display.size then s
      else { s.call (.resolution display.width display.height) with shown := some display.size }
    let s := (s.call (.draw display.picture)).call .refresh
    { s with drawn := s.drawn + 1 }
  else s

/-- Tells the host when the buzzer has to start or to stop. -/
def updateBuzzer (s : Scheduler τ ι) : Scheduler τ ι :=
  let on := s.machine.timers.soundActive
  if on = s.buzzer then s else { s.call (.buzzer on) with buzzer := on }

/-! ## Steps and commands -/

/-- One step of the machine. -/
def stepMachine (s : Scheduler τ ι) : Scheduler τ ι × Except Failure Unit :=
  let outcome := s.machine.step
  let s := { s with machine := outcome.machine }
  let s := match outcome.trace with
    | some line => s.call (.print line)
    | none => s
  match outcome.fault with
  | some fault => (s, .error fault)
  | none => (s, .ok ())

/-- One step by hand; the picture follows at once. -/
def singleStep (s : Scheduler τ ι) : Scheduler τ ι × Except Failure Unit :=
  match s.stepMachine with
  | (s, .ok ()) => (s.render, .ok ())
  | (s, .error failure) => (s, .error failure)

variable [TimeLine τ]

/-- A machine with both clocks at their start. -/
def new (machine : Machine) (inputs : ι) (speed : Int) (paused : Bool) :
    Except Failure (Scheduler τ ι) :=
  if speed ≤ 0 then .error .clockTooSlow
  else if !TimeLine.holds τ speed.toNat then .error (.number .overflow)
  else .ok <| report (τ := τ)
    { machine, inputs, speed := speed.toNat, core := TimeLine.zero, timer := TimeLine.zero,
      paused } 0 0

/-- Stops the instruction clock; the time that it had yet to use is lost. -/
def pause (s : Scheduler τ ι) : Scheduler τ ι :=
  { s with paused := true, core := TimeLine.zero }

def resume (s : Scheduler τ ι) : Scheduler τ ι := { s with paused := false }

def obey (s : Scheduler τ ι) : HostCommand → Scheduler τ ι × Except Failure Unit
  | .togglePause => (if s.paused then s.resume else s.pause, .ok ())
  | .step => if s.paused then s.singleStep else (s, .ok ())

/-- Obeys commands up to the first that fails. -/
def obeyAll (s : Scheduler τ ι) : List HostCommand → Scheduler τ ι × Except Failure Unit
  | [] => (s, .ok ())
  | c :: rest =>
    match s.obey c with
    | (s, .ok ()) => s.obeyAll rest
    | (s, .error failure) => (s, .error failure)

/-! ## Frames -/

/-- Counts a frame. Every second it is time for a report. -/
def countFrame (s : Scheduler τ ι) : Scheduler τ ι :=
  let s := { s with frames := s.frames + 1 }
  if s.frames % 60 = 0 then
    { s.report s.drawn (s.machine.executed - s.reported) with
      drawn := 0
      reported := s.machine.executed }
  else s

/-- The part of a frame behind the inputs. -/
def finishFrame (s : Scheduler τ ι) : Scheduler τ ι :=
  { s with machine := s.machine.tick }.updateBuzzer.render.countFrame

/-- One frame. Answers whether the user asked to quit; a frame that quits ends there. -/
def frame [InputDevice ι] (s : Scheduler τ ι) : Scheduler τ ι × Except Failure Bool :=
  let poll := InputDevice.poll s.inputs s.machine.keypad
  let s := { s with
    inputs := poll.device
    machine := { s.machine with keypad := poll.keypad } }
  match poll.result with
  | .error failure => (s, .error failure)
  | .ok true => (s, .ok true)
  | .ok false =>
    let (commands, inputs) := InputDevice.takeCommands s.inputs
    match { s with inputs := inputs }.obeyAll commands with
    | (s, .error failure) => (s, .error failure)
    | (s, .ok ()) => (s.finishFrame, .ok false)

end Scheduler

end Chip8
