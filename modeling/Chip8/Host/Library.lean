import Chip8.Failure

/-! What views ask of the libraries of their host, and what these make of it. A library is known by
what it refuses, and a terminal also by the cells that a text fills. -/

namespace Chip8

/-- A library for windows. What it shows is not kept. -/
structure WindowLibrary where
  /-- Opens a window of a width and a height. -/
  openWindow : Int → Int → Except Failure Unit
  setCaption : String → Except Failure Unit
  /-- Makes so many bytes into a picture of a width and a height. -/
  frame : Nat → Int → Int → Except Failure Unit
  /-- Smooths a picture of a width and a height, both of which double. -/
  smooth : Int → Int → Except Failure Unit
  /-- Stretches a picture of some size to the window of another, which may be closed. -/
  present : Int × Int → Int × Int → Bool → Except Failure Unit

/-- What a view asks of the terminal. -/
inductive TerminalCall where
  | start
  | echo (on : Bool)
  /-- Characters arrive one by one instead of in lines. -/
  | single (on : Bool)
  /-- How visible the cursor is; nothing stands for a mode that is left open. -/
  | cursor (mode : Option Int)
  | newPad (rows columns : Int)
  | write (row column : Int) (text : String) (reverse : Bool)
  | clearScreen
  | resize (height width : Int)
  | refreshScreen
  /-- Shows the pad from its top left corner up to a place on the screen. -/
  | showPad (bottom right : Int)
  | stop
  deriving DecidableEq, Repr

/-- What becomes of a text on a pad. A text that is refused may have filled cells before. -/
structure Spread where
  /-- The cells that the text fills, each a row and a column. -/
  cells : List (Int × Int)
  result : Except Failure Unit

/-- Cells beside each other, from one cell on. -/
def Spread.inRow (row column : Int) (length : Nat) : List (Int × Int) :=
  (List.range length).map fun k => (row, column + (k : Nat))

/-- A library for terminals. -/
structure TerminalLibrary where
  /-- Makes a pad of so many rows and columns. -/
  makePad : Int → Int → Except Failure Unit
  /-- Writes a text on a pad of a size, from a row and a column on. -/
  spread : Int × Int → Int → Int → String → Spread

namespace TerminalLibrary

/-- Whether a call is refused, with a pad of a size in use. -/
def answer (t : TerminalLibrary) (size : Int × Int) : TerminalCall → Except Failure Unit
  | .newPad rows columns => t.makePad rows columns
  | .write row column text _ => (t.spread size row column text).result
  | _ => .ok ()

/-- The calls that are made, which end with the first that is refused. -/
def serve (t : TerminalLibrary) (size : Int × Int) :
    List TerminalCall → List TerminalCall × Except Failure Unit
  | [] => ([], .ok ())
  | call :: rest =>
    match t.answer size call with
    | .error failure => ([call], .error failure)
    | .ok () =>
      let (made, result) := t.serve size rest
      (call :: made, result)

end TerminalLibrary

structure Host where
  /-- So many bytes can be had in one piece. -/
  room : Nat
  window : WindowLibrary
  terminal : TerminalLibrary

end Chip8
