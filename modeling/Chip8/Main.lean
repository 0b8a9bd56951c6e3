import Chip8.Host.Desktop
import Chip8.Host.Playback
import Chip8.Launcher

/-! The command line. There is neither a window nor a terminal to draw on here, so sessions are
headless: they run until something fails, and show what the machine reports about itself. -/

namespace Chip8

def hostLibraries : Libraries where
  window := false
  terminal := false

/-- Random bytes that depend on a seed. -/
def ByteSource.seeded (seed : UInt64) : ByteSource where
  byte k := (mixHash seed k.toUInt64).toUInt8

/-- What is told to the user about a failure. -/
def Failure.complaint (failure : Failure) : String :=
  failure.message?.getD <| match failure with
    | .fileMissing => "There is no such file."
    | .missing _ => "An option needs a value."
    | _ => "A number is out of range."

/-- Seconds on the clock of the host. -/
def readClock : IO Float := return Number.nearest (← IO.monoNanosNow) 1000000000

/-- Does what the scheduler asks for, as far as a headless host can. -/
def serve : HostCall Float → IO Unit
  | .print line => do
    IO.println line
    (← IO.getStdout).flush
  | .sleep span => IO.sleep (span * 1000.0).toUInt32
  | _ => pure ()

partial def runSession (s : Session Float Playback) (last : Float) :
    IO (Except Failure Unit) := do
  let now ← readClock
  let (s, r) := s.turn .desktop (now - last)
  let (calls, s) := s.takeServed
  calls.forM serve
  match r with
  | .error failure => return .error failure
  | .ok true => return .ok ()
  | .ok false => runSession s now

def readProgram (filename : String) : IO (Except Failure (List UInt8)) := do
  try
    let bytes ← IO.FS.readBinFile filename
    return .ok bytes.toList
  catch _ => return .error .fileMissing

def launch (options : LaunchOptions) : IO (Except Failure Unit) := do
  IO.println About.greeting
  let file ← readProgram options.filename
  let random := ByteSource.seeded (← IO.monoNanosNow).toUInt64
  let l : Launch := { options, host := .desktop, libraries := hostLibraries, file, random }
  match l.prepare fun _ _ => Playback.silent with
  | .error failure => return .error failure
  | .ok s => runSession s (← readClock)

end Chip8

def main (words : List String) : IO UInt32 := do
  match Chip8.LaunchOptions.parse words with
  | .error .help =>
    IO.println Chip8.LaunchOptions.usage
    return Chip8.Exit.help.code.toUInt32
  | .error .usage =>
    IO.eprintln Chip8.LaunchOptions.usage
    return Chip8.Exit.usage.code.toUInt32
  | .ok options =>
    match ← Chip8.launch options with
    | .ok () => return 0
    | .error failure =>
      IO.eprintln failure.complaint
      return 1
