import Chip8.CommandLine.LaunchOptions
import Chip8.Session

/-! A launch: from options and the bytes of a program to a session. Whatever is wrong with a launch
is found in a fixed order, and before the first instruction is executed. -/

namespace Chip8

/-- What the host contributes to a launch. -/
structure Launch where
  options : LaunchOptions
  host : Host
  libraries : Libraries
  /-- The bytes of the program, or why they cannot be read. -/
  file : Except Failure (List UInt8)
  random : ByteSource

namespace Launch

def backend (l : Launch) : Except Failure Backend :=
  let name := Backend.nameOf l.options.renderer
  (Backend.select l.libraries name l.options.mute.decision?).mapError .backend

/-- Whether a report can be written: the decimal number in it may not have too many digits. -/
def isWritable : Fault → Bool
  | .tooLong _ available _ => (Nat.toDigits 10 available.natAbs).length ≤ Text.maxDigits
  | _ => true

/-- The machine with the program in its memory. -/
def machine (l : Launch) : Except Failure Machine := do
  let program ← l.file
  let address ← l.options.loadAddress.get .number Layout.programStart
  let m := Machine.new l.options.dialect l.options.hires l.options.debug l.random
  (m.loadProgram program address).mapError fun fault =>
    if isWritable fault then .fault fault else .number .range

def view (l : Launch) (surface : Surface) : Except Failure SurfaceView :=
  let o := l.options
  match surface with
  | .window => (WindowView.new l.host.window o.scale o.palette o.smoothing).map .window
  | .terminal => (TerminalView.new l.host o.scale o.cursorMode true).map fun (v, _) => .terminal v
  | .headless => .ok (.headless (View.new o.scale))

/-- The keymap; the codes of a terminal are characters. -/
def keymap (l : Launch) (surface : Surface) : Except Failure Keymap := do
  let text ← l.options.keymap.get .text Keymap.defaultText
  Keymap.read text (surface == .terminal)

variable {τ ι : Type} [TimeLine τ]

/-- A session that is ready to run, with its input device. -/
def prepare (l : Launch) (device : Surface → Keymap → ι) : Except Failure (Session τ ι) := do
  let backend ← l.backend
  let machine ← l.machine
  let view ← l.view backend.surface
  let keymap ← l.keymap backend.surface
  let _ ← Speaker.new backend.audio
  let speed ← l.options.clockSpeed.get .number Scheduler.defaultSpeed
  let scheduler ← Scheduler.new machine (device backend.surface keymap) speed l.options.paused
  return { scheduler, view }

end Launch

end Chip8
