import Chip8.Failure

/-! The buzzer. The scheduler only says whether it should sound; a speaker turns that into what the
host can do: nothing, a bell, or a tone that goes on until it is stopped. -/

namespace Chip8

/-- One cycle of a tone: high for the first half, low for the second. -/
structure SquareWave where
  length : Nat
  deriving DecidableEq, Repr

namespace SquareWave

/-- Samples a second. -/
def sampleRate : Nat := 44100

def defaultFrequency : Float := 440.0

def defaultVolume : Float := 0.1

/-- One cycle at a frequency, of two samples at least. -/
def ofFrequency (frequency : Float) : Except Failure SquareWave :=
  if frequency == 0.0 then .error (.number .divisionByZero)
  else
    let samples := sampleRate.toFloat / frequency
    if samples.isNaN then .error (.number .range)
    else if samples.isInf then .error (.number .overflow)
    else .ok ⟨max 2 samples.toUInt64.toNat⟩

/-- How many samples are high. -/
def high (w : SquareWave) : Nat := w.length / 2

def low (w : SquareWave) : Nat := w.length - w.high

def samples (w : SquareWave) : List UInt8 :=
  List.replicate w.high 0xFF ++ List.replicate w.low 0x00

theorem length_samples (w : SquareWave) : w.samples.length = w.length := by
  simp only [samples, List.length_append, List.length_replicate, low, high]
  omega

end SquareWave

inductive AudioKind where
  | silent
  /-- A beep of fixed length. -/
  | bell
  | tone
  deriving DecidableEq, Repr

/-- What a speaker asks of the host. -/
inductive AudioCall where
  | beep
  | prepare (rate sampleBits channels buffer : Nat)
  | start
  | load (wave : SquareWave)
  | setVolume (volume : Float)
  /-- The loaded wave, over and over. -/
  | play
  | stop
  | quit
  deriving Repr

structure Speaker where
  kind : AudioKind
  on : Bool := false
  deriving DecidableEq, Repr

namespace Speaker

/-- A speaker that is off, and the calls that make it ready. -/
def new (kind : AudioKind) (frequency : Float := SquareWave.defaultFrequency) :
    Except Failure (Speaker × List AudioCall) :=
  match kind with
  | .tone => do
    let wave ← SquareWave.ofFrequency frequency
    return ({ kind }, [.prepare SquareWave.sampleRate 8 1 512, .start, .load wave,
      .setVolume SquareWave.defaultVolume])
  | kind => .ok ({ kind }, [])

/-- Switches the buzzer. Only a change reaches the host, and a beep cannot be stopped. -/
def enable (s : Speaker) (on : Bool) : Speaker × List AudioCall :=
  let calls := match s.kind with
    | .silent => []
    | .bell => if on && !s.on then [.beep] else []
    | .tone =>
      if on && !s.on then [.play]
      else if !on && s.on then [.stop]
      else []
  ({ s with on := on }, calls)

def shutdown (s : Speaker) : List AudioCall :=
  match s.kind with
  | .tone => [.stop, .quit]
  | _ => []

end Speaker

end Chip8
