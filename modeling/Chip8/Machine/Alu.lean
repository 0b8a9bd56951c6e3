import Chip8.Instruction
import Chip8.Machine.Basic

/-! Arithmetic on a pair of registers. The flag is written last, so that it wins when it is also the
register of the result; a dialect may turn this round for the two shifts. -/

namespace Chip8

namespace AluOp

/-- What an operation computes from the two registers: the result, and the flag if it has one. -/
def compute (d : Dialect) (op : AluOp) (a b : UInt8) : UInt8 × Option Bool :=
  let shifted := if d.shift then a else b
  match op with
  | copy => (b, none)
  | or => (a ||| b, if d.logic then some false else none)
  | and => (a &&& b, if d.logic then some false else none)
  | xor => (a ^^^ b, if d.logic then some false else none)
  | add => (a + b, some (a.toNat + b.toNat > 0xFF))
  | sub => (a - b, some (b ≤ a))
  | subFrom => (b - a, some (a ≤ b))
  | shiftRight => (shifted >>> 1, some (shifted &&& 1 != 0))
  | shiftLeft => (shifted <<< 1, some (shifted >>> 7 != 0))

/-- Whether the flag is written before the result. -/
def flagFirst (d : Dialect) : AluOp → Bool
  | shiftRight | shiftLeft => d.shiftFlag
  | _ => false

end AluOp

namespace Machine

def runAlu (m : Machine) (op : AluOp) (x y : Register) : Machine :=
  match op.compute m.dialect (m.getV x) (m.getV y) with
  | (result, none) => m.setV x result
  | (result, some flag) =>
    if op.flagFirst m.dialect then (m.setFlag flag).setV x result
    else (m.setV x result).setFlag flag

end Machine

end Chip8
