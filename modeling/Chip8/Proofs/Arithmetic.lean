import Chip8.Proofs.Frame

/-! Arithmetic on registers. What an operation computes is given here in numbers, and it holds for
any two registers, also if they are the same one, or one of them is the flag register: operands are
read before anything is written, and then the flag wins, or in some dialects the result of a
shift. -/

namespace Chip8

namespace AluOp

variable (d : Dialect) (op : AluOp)

/-- The value that a shift moves: that of the register it writes to, or of the other one. -/
def shifted (a b : Nat) : Nat := if d.shift then a else b

/-- The result of an operation on the values of its two registers. -/
def value (a b : Nat) : Nat :=
  match op with
  | copy => b
  | or => a ||| b
  | and => a &&& b
  | xor => a ^^^ b
  | add => (a + b) % 256
  | sub => ((a - b : Int) % 256).toNat
  | subFrom => ((b - a : Int) % 256).toNat
  | shiftRight => shifted d a b / 2
  | shiftLeft => 2 * shifted d a b % 256

/-- The flag that goes with it, if any: a carry, no borrow, or the bit that is shifted out. -/
def flag? (a b : Nat) : Option Bool :=
  match op with
  | copy => none
  | or | and | xor => if d.logic then some false else none
  | add => some (255 < a + b)
  | sub => some (b ≤ a)
  | subFrom => some (a ≤ b)
  | shiftRight => some ((shifted d a b).testBit 0)
  | shiftLeft => some ((shifted d a b).testBit 7)

/-- Of two writes to the flag register the result is the later one. -/
def resultLast : Bool := d.shiftFlag && (op == shiftRight || op == shiftLeft)

/-! ## Values of bytes -/

theorem toNat_sub_byte (a b : UInt8) : (a - b).toNat = ((a.toNat - b.toNat : Int) % 256).toNat := by
  have small := a.toNat_lt
  have small' := b.toNat_lt
  rw [UInt8.toNat_sub]
  omega

theorem toNat_shiftRight_one (s : UInt8) : (s >>> 1).toNat = s.toNat / 2 := by
  rw [UInt8.toNat_shiftRight]
  exact Nat.shiftRight_succ s.toNat 0

theorem toNat_shiftLeft_one (s : UInt8) : (s <<< 1).toNat = 2 * s.toNat % 256 := by
  rw [UInt8.toNat_shiftLeft]
  exact congrArg (· % 256) (Nat.shiftLeft_succ s.toNat 0)

theorem lowestBit (s : UInt8) : (s &&& 1 != 0) = s.toNat.testBit 0 := by
  apply Bool.eq_iff_iff.mpr
  simp only [bne_iff_ne, ne_eq, ← UInt8.toNat_inj, UInt8.toNat_and, UInt8.toNat_one,
    UInt8.toNat_zero, Nat.and_one_is_mod, Nat.testBit_zero, decide_eq_true_eq]
  omega

theorem highestBit (s : UInt8) : (s >>> 7 != 0) = s.toNat.testBit 7 := by
  have small := s.toNat_lt
  have amount : (7 : UInt8).toNat % 8 = 7 := rfl
  apply Bool.eq_iff_iff.mpr
  simp only [bne_iff_ne, ne_eq, ← UInt8.toNat_inj, UInt8.toNat_shiftRight, amount,
    UInt8.toNat_zero, Nat.shiftRight_eq_div_pow, Nat.testBit_eq_decide_div_mod_eq,
    decide_eq_true_eq]
  omega

/-! ## What is computed -/

theorem toNat_shifted (a b : UInt8) :
    (if d.shift then a else b).toNat = shifted d a.toNat b.toNat := by
  unfold shifted
  split <;> rfl

theorem toNat_compute (a b : UInt8) :
    (op.compute d a b).1.toNat = op.value d a.toNat b.toNat := by
  cases op with
  | copy => rfl
  | or => exact UInt8.toNat_or a b
  | and => exact UInt8.toNat_and a b
  | xor => exact UInt8.toNat_xor a b
  | add => exact UInt8.toNat_add a b
  | sub => exact toNat_sub_byte a b
  | subFrom => exact toNat_sub_byte b a
  | shiftRight =>
    rw [value, ← toNat_shifted]
    exact toNat_shiftRight_one _
  | shiftLeft =>
    rw [value, ← toNat_shifted]
    exact toNat_shiftLeft_one _

theorem flag_compute (a b : UInt8) : (op.compute d a b).2 = op.flag? d a.toNat b.toNat := by
  cases op with
  | copy | or | and | xor | add | sub | subFrom => rfl
  | shiftRight =>
    rw [flag?, ← toNat_shifted]
    exact congrArg some (lowestBit _)
  | shiftLeft =>
    rw [flag?, ← toNat_shifted]
    exact congrArg some (highestBit _)

theorem flagFirst_eq : op.flagFirst d = op.resultLast d := by
  cases op with
  | shiftRight | shiftLeft => exact (Bool.and_true _).symm
  | _ => exact (Bool.and_false _).symm

theorem nibble_lt : op.nibble < 16 := by cases op <;> decide

end AluOp

/-- The opcodes 8xyN are those of the arithmetic operations. -/
theorem Instruction.decode?_alu {hires : Bool} {w : UInt16} {op : AluOp} {x y : Register}
    (opcode : w.toNat = 0x8000 + 0x100 * x.val + 0x10 * y.val + op.nibble) :
    decode? hires w = some (.alu op x y) := by
  have last := op.nibble_lt
  have family : Opcode.family w = 0x8 := by
    unfold Opcode.family
    omega
  have first : Opcode.x w = x := Fin.ext (by show w.toNat / 0x100 % 16 = x.val; omega)
  have second : Opcode.y w = y := Fin.ext (by show w.toNat / 0x10 % 16 = y.val; omega)
  have named : (Opcode.n w).val = op.nibble := by
    show w.toNat % 16 = op.nibble
    omega
  simp only [decode?, family, first, second, named, AluOp.ofNibble?_nibble, Option.map_some]

/-! ## The registers after an operation -/

namespace Machine

variable {m : Machine} {op : AluOp} {x y : Register} {w : UInt16}

def aluValue (m : Machine) (op : AluOp) (x y : Register) : Nat :=
  op.value m.dialect (m.getV x).toNat (m.getV y).toNat

def aluFlag? (m : Machine) (op : AluOp) (x y : Register) : Option Bool :=
  op.flag? m.dialect (m.getV x).toNat (m.getV y).toNat

/-- What an operation leaves in the registers. Only the flag register can be written twice. -/
structure Computes (m : Machine) (op : AluOp) (x y : Register) (m' : Machine) : Prop where
  flag : ∀ on, m.aluFlag? op x y = some on →
    (x = .flag → op.resultLast m.dialect = false) → m'.getV .flag = if on then 1 else 0
  result : (x = .flag → m.aluFlag? op x y = none ∨ op.resultLast m.dialect = true) →
    (m'.getV x).toNat = m.aluValue op x y
  others : ∀ r, r ≠ x → (r = .flag → m.aluFlag? op x y = none) → m'.getV r = m.getV r

theorem computes_runAlu (m : Machine) (op : AluOp) (x y : Register) :
    m.Computes op x y (m.runAlu op x y) := by
  have value : (op.compute m.dialect (m.getV x) (m.getV y)).1.toNat = m.aluValue op x y :=
    op.toNat_compute m.dialect _ _
  have flag : (op.compute m.dialect (m.getV x) (m.getV y)).2 = m.aluFlag? op x y :=
    op.flag_compute m.dialect _ _
  unfold runAlu
  split
  · next result computed =>
    rw [computed] at value flag
    refine { flag := ?_, result := ?_, others := ?_ }
    · intro on flagged
      exact nomatch flag.trans flagged
    · intro _
      rw [getV_setV_self, value]
    · intro r other _
      exact getV_setV_of_ne _ _ other
  · next result on computed =>
    rw [computed] at value flag
    have apart : ∀ r : Register, (r = .flag → m.aluFlag? op x y = none) → r ≠ .flag := by
      intro r unflagged same
      exact nomatch flag.trans (unflagged same)
    rw [AluOp.flagFirst_eq]
    split
    · next last =>
      refine { flag := ?_, result := ?_, others := ?_ }
      · intro on' flagged first
        obtain rfl := Option.some.inj (flag.trans flagged)
        have plain : .flag ≠ x := fun same => nomatch last.symm.trans (first same.symm)
        rw [getV_setV_of_ne _ _ plain, getV_setFlag]
      · intro _
        rw [getV_setV_self, value]
      · intro r other unflagged
        rw [getV_setV_of_ne _ _ other, getV_setFlag_of_ne _ _ (apart r unflagged)]
    · next first =>
      refine { flag := ?_, result := ?_, others := ?_ }
      · intro on' flagged _
        obtain rfl := Option.some.inj (flag.trans flagged)
        exact getV_setFlag _ _
      · intro kept
        have plain : x ≠ .flag := by
          intro same
          rcases kept same with unflagged | last
          · exact nomatch flag.trans unflagged
          · exact first last
        rw [getV_setFlag_of_ne _ _ plain, getV_setV_self, value]
      · intro r other unflagged
        rw [getV_setFlag_of_ne _ _ (apart r unflagged), getV_setV_of_ne _ _ other]

/-- A step at an opcode 8xyN leaves in the registers what its operation computes, whichever
registers it names. -/
theorem computes_step (phase : m.phase = .running) (fetched : m.fetch = .ok w)
    (opcode : w.toNat = 0x8000 + 0x100 * x.val + 0x10 * y.val + op.nibble) :
    m.Computes op x y m.step.machine := by
  have computes := computes_runAlu (m.fetched w) op x y
  rw [step_of_decoded phase fetched (Instruction.decode?_alu opcode),
    (perform_of_ok (m := m.fetched w) (i := .alu op x y) rfl).1]
  split <;> exact { computes with }

/-- The flag register is shifted in place, in a dialect where the result is written last. -/
theorem computes_step_inPlace :
    let m := { new { shift := true, shiftFlag := true } false false (.cycle []) with
      v := Vector.replicate 16 0x81
      memory := (Memory.zeros 0x1000).putAll 0x200 [0x8F, 0x0E] }
    m.phase = .running ∧ m.fetch = .ok 0x8F0E ∧
      (0x8F0E : UInt16).toNat = 0x8000 + 0x100 * 15 + 0x10 * 0 + AluOp.shiftLeft.nibble ∧
      (m.step.machine.getV .flag).toNat = 2 := by
  intro m
  have fetched : m.fetch = .ok 0x8F0E := of_toOption (by decide +kernel)
  have computes : m.Computes .shiftLeft .flag .first m.step.machine :=
    computes_step rfl fetched rfl
  have value : m.aluValue .shiftLeft .flag .first = 2 := by decide +kernel
  exact ⟨rfl, fetched, rfl, (computes.result fun _ => .inr rfl).trans value⟩

end Machine

end Chip8
