/-! Fixed sizes and places of the machine. -/

namespace Chip8.Layout

def memorySize : Nat := 0x1000

/-- Below this address lies the interpreter's own area, which no program may occupy. -/
def reservedTop : Nat := 0x200

def programStart : Nat := 0x200

/-- The last address at which a whole opcode fits. -/
def highestPC : Nat := 0xFFE

def fontAddress : Nat := 0x50

def glyphSize : Nat := 5

def callDepth : Nat := 16

def keyCount : Nat := 16

/-- Width and height of the screen at power-on. -/
def lowResolution : Nat × Nat := (64, 32)

def highResolution : Nat × Nat := (128, 64)

end Chip8.Layout
