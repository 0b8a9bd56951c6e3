import Chip8.CommandLine.Option
import Chip8.Dialect
import Chip8.Host.Keymap
import Chip8.Scheduler.Basic
import Chip8.Setting

/-! The options of a launch. -/

namespace Chip8

open CommandLine Text

inductive LaunchKey where
  | help
  | clockSpeed
  | loadAddress
  | renderer
  | scale
  | smoothing
  | mute
  | keymap
  | hires
  | paused
  | cursorMode
  | palette
  | switch (s : Switch)
  | debug
  deriving DecidableEq, Repr

structure LaunchOptions where
  /-- The file that holds the program. -/
  filename : String := ""
  clockSpeed : Setting Int := .value Scheduler.defaultSpeed
  loadAddress : Setting Int := .absent
  renderer : Setting String := .absent
  scale : Setting Int := .absent
  smoothing : Setting Int := .value 0
  mute : Setting Bool := .absent
  keymap : Setting String := .value Keymap.defaultText
  hires : Bool := false
  paused : Bool := false
  cursorMode : Setting Int := .value 0
  palette : Setting String := .absent
  /-- The switches that are set, the latest first. -/
  switches : List (Switch × Setting Bool) := []
  debug : Bool := false

/-- Why a command line launches nothing. -/
inductive Exit where
  | help
  | usage
  deriving DecidableEq, Repr

def Exit.code : Exit → Nat
  | help => 0
  | usage => 2

namespace LaunchOptions

def specs : List (OptionSpec LaunchKey) :=
  [⟨.help, ["-h", "--help"], false⟩,
   ⟨.clockSpeed, ["-c", "--clock_speed"], true⟩,
   ⟨.loadAddress, ["-l", "--load_address"], true⟩,
   ⟨.renderer, ["-r", "--renderer"], true⟩,
   ⟨.scale, ["-s", "--scale"], true⟩,
   ⟨.smoothing, ["-f", "--smoothing"], true⟩,
   ⟨.mute, ["-m", "--mute"], true⟩,
   ⟨.keymap, ["-k", "--keymap"], true⟩,
   ⟨.hires, ["--hires"], false⟩,
   ⟨.paused, ["-p", "--paused"], false⟩,
   ⟨.cursorMode, ["--curses_cursor_mode"], true⟩,
   ⟨.palette, ["--pygame_palette"], true⟩] ++
  Switch.all.map (fun s => ⟨.switch s, ["--" ++ Dialect.optionName s], true⟩) ++
  [⟨.debug, ["-d", "--debug"], false⟩]

/-! ## Values -/

def readDecimal? (text : String) : Option Int := readInt? (.fixed 10) text

/-- An address may have a mark of its base. -/
def readAddress? (text : String) : Option Int := readInt? .marked text

def readBit? (text : String) : Option Bool :=
  match readDecimal? text with
  | some 0 => some false
  | some 1 => some true
  | _ => none

def readCursorMode? (text : String) : Option Int :=
  (readDecimal? text).filter fun n => 0 ≤ n && n ≤ 2

def readRenderer? (text : String) : Option String :=
  if ["pygame", "curses", "null"].contains text then some text else none

/-- The options after one more is given; a value that cannot be read ends the launch. -/
def give (o : LaunchOptions) (key : LaunchKey) (value : Option String) : Option LaunchOptions :=
  match key with
  | .help => none
  | .clockSpeed => (Setting.read readDecimal? value).map fun n => { o with clockSpeed := n }
  | .loadAddress => (Setting.read readAddress? value).map fun n => { o with loadAddress := n }
  | .renderer => (Setting.read readRenderer? value).map fun name => { o with renderer := name }
  | .scale => (Setting.read readDecimal? value).map fun n => { o with scale := n }
  | .smoothing => (Setting.read readDecimal? value).map fun n => { o with smoothing := n }
  | .mute => (Setting.read readBit? value).map fun on => { o with mute := on }
  | .keymap => (Setting.read some value).map fun text => { o with keymap := text }
  | .hires => some { o with hires := true }
  | .paused => some { o with paused := true }
  | .cursorMode => (Setting.read readCursorMode? value).map fun n => { o with cursorMode := n }
  | .palette => (Setting.read some value).map fun text => { o with palette := text }
  | .switch s =>
    (Setting.read readBit? value).map fun on => { o with switches := (s, on) :: o.switches }
  | .debug => some { o with debug := true }

/-! ## The whole line -/

def readItem (o : LaunchOptions) : Item LaunchKey → Except Exit LaunchOptions
  | .argument text => .ok { o with filename := text }
  | .given (.help, _) => .error .help
  | .given (key, value) =>
    match o.give key value with
    | some o => .ok o
    | none => .error .usage

def readItems (o : LaunchOptions) : List (Item LaunchKey) → Except Exit LaunchOptions
  | [] => .ok o
  | item :: rest =>
    match o.readItem item with
    | .ok o => o.readItems rest
    | .error exit => .error exit

def isArgument : Item LaunchKey → Bool
  | .argument _ => true
  | .given _ => false

/-- Reads a command line. What it says takes effect from left to right, so a wish for help counts
only in front of the first error. -/
def parse (words : List String) : Except Exit LaunchOptions :=
  let scan := CommandLine.scan specs words
  match readItems {} scan.items with
  | .error exit => .error exit
  | .ok o => if scan.failed || !scan.items.any isArgument then .error .usage else .ok o

/-- The options there are, and that a file is needed. -/
def usage : String :=
  let option := fun (o : OptionSpec LaunchKey) =>
    "  " ++ ", ".intercalate o.names ++ if o.takesValue then " VALUE" else ""
  "\n".intercalate ("usage: [options] filename" :: specs.map option)

/-- What is said of a switch. -/
def switch (o : LaunchOptions) (s : Switch) : Setting Bool := (o.switches.lookup s).getD .absent

/-- The dialect that the options ask for. -/
def dialect (o : LaunchOptions) : Dialect :=
  .ofOptions fun name =>
    (Switch.all.find? (Dialect.optionName · == name)).bind fun s => (o.switch s).decision?

end LaunchOptions

end Chip8
