import Chip8.Host.Library
import Chip8.Number.Length

/-! A host as they are found on desks. Its windows have the limits that windows usually have; its
terminal takes whatever it is asked for, so nothing can be learned from it about real ones. -/

namespace Chip8

namespace WindowLibrary

/-- The signed number that the lowest 32 bits make. -/
def low32 (n : Int) : Int := Int.bmod n 0x100000000

/-- No window is wider or higher than this. -/
def maxSide : Int := 16384

/-- No picture of more bytes than this can be made. -/
def maxBytes : Int := 0x7FFFFFFF

/-- Only the lowest 32 bits of a side of a window count, while a side of a picture has to fit into
them. A picture is as large as its bytes say, and a caption ends at a null character. -/
def desktop : WindowLibrary where
  openWindow width height :=
    if !Number.isIndex width || !Number.isIndex height then .error (.window .notASize)
    else if low32 width < 0 ∨ low32 height < 0 then .error (.window .negative)
    else if maxSide < low32 width ∨ maxSide < low32 height then .error (.window .tooLarge)
    else .ok ()
  setCaption text := if text.toList.contains '\x00' then .error .nullCharacter else .ok ()
  frame bytes width height :=
    if low32 width ≠ width ∨ low32 height ≠ height then .error (.number .overflow)
    else if width < 0 ∨ height < 0 ∨ bytes ≠ 3 * (width * height) then .error (.number .range)
    else .ok ()
  smooth width height :=
    if maxBytes < 3 * (2 * width * (2 * height)) then .error (.window .tooLarge) else .ok ()
  present _ _ closed := if closed then .error (.window .closed) else .ok ()

end WindowLibrary

/-- A terminal that refuses nothing and gives each character a cell. -/
def TerminalLibrary.lenient : TerminalLibrary where
  makePad _ _ := .ok ()
  spread _ row column text := { cells := Spread.inRow row column text.length, result := .ok () }

def Host.desktop : Host where
  room := 0xFFFFFFFF
  window := .desktop
  terminal := .lenient

end Chip8
