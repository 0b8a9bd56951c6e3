import Chip8.About
import Chip8.Host.Library
import Chip8.Host.Palette
import Chip8.Host.View

/-! Pictures for a window, kept as one buffer of three bytes a pixel, row by row. -/

namespace Chip8

structure WindowView extends View where
  palette : Palette
  /-- Width and height of the window, to which the picture is stretched. -/
  window : Int × Int
  /-- How often the edges of the picture are smoothed. -/
  smoothing : Setting Int
  pixels : Array Colour := #[]
  closed : Bool := false
  deriving Repr

namespace WindowView

def defaultWidth : Int := 512

/-! ## Windows -/

/-- The window takes a caption before the view takes the title. -/
def setTitle (library : WindowLibrary) (v : WindowView) (title : String) :
    Except Failure WindowView := do
  library.setCaption title
  return { v with title }

/-- A window of a given width, half as high as it is wide. The window comes before its colours, and
its caption after them. -/
def new (library : WindowLibrary) (scale : Setting Int) (palette : Setting String)
    (smoothing : Setting Int) : Except Failure WindowView := do
  let scale ← scale.get .number defaultWidth
  let window := (scale, Int.fdiv scale 2)
  library.openWindow window.1 window.2
  let palette ← Palette.ofSetting palette
  setTitle library { scale, palette, window, smoothing } About.name

/-- The window goes. What is drawn after that cannot be shown any more. -/
def shutdown (v : WindowView) : WindowView := { v with closed := true }

/-! ## Pictures -/

/-- Takes another size, if there is room for its pixels; all of them become dark. -/
def setResolution (room : Nat) (v : WindowView) (width height : Int) :
    Except Failure WindowView := do
  let count ← (Number.count room 3 (width * height)).mapError .number
  return { v with
    width := width
    height := height
    pixels := Array.replicate count v.palette.dark }

def colour (v : WindowView) (lit : Bool) : Colour := if lit then v.palette.lit else v.palette.dark

/-- Replaces a pixel, or adds it behind the last. -/
def putPixel (pixels : Array Colour) (k : Nat) (c : Colour) : Array Colour :=
  if k < pixels.size then pixels.setIfInBounds k c else pixels.push c

/-- Replaces pixels from the first one on. A picture larger than the buffer makes it grow. -/
def putPixels (pixels : Array Colour) (k : Nat) : List Colour → Array Colour
  | [] => pixels
  | c :: rest => putPixels (putPixel pixels k c) (k + 1) rest

def draw (v : WindowView) (picture : Picture) : WindowView :=
  { v with pixels := putPixels v.pixels 0 (picture.flatten.map v.colour) }

/-- The buffer as bytes. -/
def buffer (v : WindowView) : List UInt8 := v.pixels.toList.flatMap Colour.bytes

/-- Smooths a picture some times. What comes of it has another size. -/
def smoothed (library : WindowLibrary) (width height : Int) : Nat → Except Failure (Int × Int)
  | 0 => .ok (width, height)
  | passes + 1 => do
    library.smooth width height
    smoothed library (2 * width) (2 * height) passes

/-- Puts the picture on the window. A picture without pixels is left out. -/
def refresh (library : WindowLibrary) (v : WindowView) : Except Failure Unit :=
  if v.width = 0 ∨ v.height = 0 then .ok ()
  else do
    library.frame (3 * v.pixels.size) v.width v.height
    let passes ← v.smoothing.get .number 0
    let size ← smoothed library v.width v.height passes.toNat
    library.present size v.window v.closed

end WindowView

end Chip8
