import Chip8.Display
import Chip8.Setting

/-! Views that show nothing: they keep the size, the title and the scale that every view keeps. -/

namespace Chip8

structure View where
  scale : Int
  title : String := ""
  width : Int := 0
  height : Int := 0
  deriving DecidableEq, Repr

namespace View

/-- A view with a scale of one, if none is set. -/
def new (scale : Setting Int) : View := { scale := scale.value?.getD 1 }

def setResolution (v : View) (width height : Int) : View :=
  { v with width := width, height := height }

def setTitle (v : View) (title : String) : View := { v with title := title }

end View

end Chip8
