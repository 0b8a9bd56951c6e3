import Chip8.Host.Library
import Chip8.Host.View

/-! Pictures for a terminal: blanks, reversed where a pixel is lit, on a pad whose top row carries
the title. The pad is one row and one column larger than what is written on it, because the cursor
has to rest somewhere. -/

namespace Chip8

structure TerminalView extends View where
  /-- The terminal can be told its size. -/
  resizable : Bool
  /-- Height and width of the terminal when the picture was last shown; at first less than any. -/
  screen : Int × Int := (-1, -1)
  deriving DecidableEq, Repr

namespace TerminalView

def defaultScale : Int := 2

/-- The cursor mode that a setting asks for: the cursor is hidden unless something else is said, and
a setting without a value leaves the mode open. -/
def cursorMode : Setting Int → Option Int
  | .absent => some 0
  | .empty => none
  | .value mode => some mode

/-- The first characters of a text; a negative length leaves out as many at the end. -/
def takeChars (text : List Char) (length : Int) : List Char :=
  if 0 ≤ length then text.take length.toNat else text.take (text.length - length.natAbs)

/-- A text cut or filled up with blanks to a length. -/
def fit (text : String) (length : Int) : String :=
  let cut := takeChars text.toList length
  String.ofList (cut ++ List.replicate (length.toNat - cut.length) ' ')

/-- The length of the title row. -/
def lineWidth (v : TerminalView) : Int := v.width * v.scale

/-- The size of the pad that was made for the size of the view. -/
def padSize (v : TerminalView) : Int × Int := (v.height + 2, v.width * v.scale + 1)

/-- What a change of a view leaves behind: the view, the calls made, and whether it failed. -/
structure Reply where
  view : TerminalView
  calls : List TerminalCall
  result : Except Failure Unit

/-- Writes the title row, and takes the title once that is done. There has to be room for a text as
long as the row. -/
def setTitle (host : Host) (v : TerminalView) (title : String) : Reply :=
  match Number.count host.room 1 v.lineWidth with
  | .error cause => ⟨v, [], .error (.number cause)⟩
  | .ok _ =>
    let (made, result) := host.terminal.serve v.padSize [.write 0 0 (fit title v.lineWidth) true]
    match result with
    | .error failure => ⟨v, made, .error failure⟩
    | .ok () => ⟨{ v with title }, made, .ok ()⟩

/-- Takes another size once there is a pad for it, and writes the title there. -/
def setResolution (host : Host) (v : TerminalView) (width height : Int) : Reply :=
  let resized := { v with width, height }
  let pad := TerminalCall.newPad resized.padSize.1 resized.padSize.2
  match host.terminal.answer v.padSize pad with
  | .error failure => ⟨v, [pad], .error failure⟩
  | .ok () =>
    let reply := resized.setTitle host v.title
    { reply with calls := pad :: reply.calls }

/-- A view of a terminal, and the calls that make it ready. There has to be room for the text of a
pixel. -/
def new (host : Host) (scale cursor : Setting Int) (resizable : Bool) :
    Except Failure (TerminalView × List TerminalCall) := do
  let scale ← scale.get .number defaultScale
  discard <| (Number.count host.room 1 scale).mapError .number
  let ready := [TerminalCall.start, .echo false, .single true, .cursor (cursorMode cursor)]
  let reply := { scale, resizable : TerminalView }.setResolution host 0 0
  reply.result
  return (reply.view, ready ++ reply.calls)

/-- What a pixel looks like. -/
def pixelText (v : TerminalView) : String := String.ofList (List.replicate v.scale.toNat ' ')

def drawRow (v : TerminalView) (y : Nat) (row : List Bool) : List TerminalCall :=
  row.zipIdx.map fun (lit, x) => .write (y + 1) (x * v.scale) v.pixelText lit

def drawing (v : TerminalView) (picture : Picture) : List TerminalCall :=
  picture.zipIdx.flatMap fun (row, y) => v.drawRow y row

/-- Draws a picture, up to the first pixel that the terminal refuses. -/
def draw (library : TerminalLibrary) (v : TerminalView) (picture : Picture) : Reply :=
  let (made, result) := library.serve v.padSize (v.drawing picture)
  ⟨v, made, result⟩

/-- Shows the pad on a terminal of a given size. A terminal of another size is wiped first. -/
def refresh (v : TerminalView) (height width : Int) : TerminalView × List TerminalCall :=
  let shown := [TerminalCall.showPad (height - 1) (width - 1)]
  if v.screen = (height, width) then (v, shown)
  else
    let resize := if v.resizable then [TerminalCall.resize height width] else []
    ({ v with screen := (height, width) },
      [.clearScreen] ++ resize ++ [.refreshScreen] ++ shown)

/-- The terminal as it was before. -/
def shutdown : List TerminalCall := [.single false, .echo true, .cursor (some 1), .stop]

end TerminalView

end Chip8
