import Chip8.Proofs.Invariant

/-! Histories. A host loads programs, resets, steps, ticks, presses keys and changes the dialect, in
any order, and carries on after a failure. The machine invariant holds at power-on and survives every
operation that starts a program at an even address within memory, so it holds in every state of every
history. -/

namespace Chip8

/-- What a host may do to a machine. -/
inductive Operation where
  | load (program : List UInt8) (address : Int)
  | reset (start : Int)
  | step
  | tick
  | setKey (key : Int) (pressed : Bool)
  | setDialect (dialect : Dialect)
  deriving DecidableEq

/-- What an operation leaves behind. -/
structure Answer where
  machine : Machine
  failure : Option Failure := none
  /-- The line that was printed. -/
  trace : Option String := none

/-- Execution may begin at an even address from which a whole opcode can be read. -/
def Operation.StartsInside : Operation → Prop
  | load _ start | reset start => start % 2 = 0 ∧ 0 ≤ start ∧ start ≤ 0xFFE
  | step | tick | setKey _ _ | setDialect _ => True

instance : DecidablePred Operation.StartsInside
  | .load _ start | .reset start =>
    inferInstanceAs (Decidable (start % 2 = 0 ∧ 0 ≤ start ∧ start ≤ 0xFFE))
  | .step | .tick | .setKey _ _ | .setDialect _ => .isTrue trivial

/-- Operations that go on with the program at hand. -/
def Operation.continues : Operation → Bool
  | load _ _ | reset _ => false
  | step | tick | setKey _ _ | setDialect _ => true

namespace Machine

/-- Performs an operation. A program or a key that is refused changes nothing. -/
def answer (m : Machine) : Operation → Answer
  | .load program address =>
    match m.loadProgram program address with
    | .ok loaded => { machine := loaded }
    | .error fault => { machine := m, failure := some (.fault fault) }
  | .reset start => { machine := m.reset start }
  | .step => { machine := m.step.machine, failure := m.step.fault.map .fault, trace := m.step.trace }
  | .tick => { machine := m.tick }
  | .setKey key pressed =>
    match m.setKey key pressed with
    | .ok m => { machine := m }
    | .error failure => { machine := m, failure := failure }
  | .setDialect dialect => { machine := { m with dialect := dialect } }

/-- The machine after a history. -/
def after (m : Machine) (operations : List Operation) : Machine :=
  operations.foldl (fun m operation => (m.answer operation).machine) m

/-- The operations of a history, each with the machine that it met, the latest first. -/
def past (m : Machine) : List Operation → List (Machine × Operation)
  | [] => []
  | operation :: rest => (m.answer operation).machine.past rest ++ [(m, operation)]

theorem after_append (m : Machine) (operations rest : List Operation) :
    m.after (operations ++ rest) = (m.after operations).after rest := List.foldl_append

theorem past_append (m : Machine) (operations rest : List Operation) :
    m.past (operations ++ rest) = (m.after operations).past rest ++ m.past operations := by
  induction operations generalizing m with
  | nil => exact (List.append_nil _).symm
  | cons operation others ih =>
    rw [List.cons_append, past, ih, past, List.append_assoc]
    rfl

theorem after_concat (m : Machine) (operations : List Operation) (last : Operation) :
    m.after (operations ++ [last]) = ((m.after operations).answer last).machine :=
  m.after_append operations [last]

theorem past_concat (m : Machine) (operations : List Operation) (last : Operation) :
    m.past (operations ++ [last]) = (m.after operations, last) :: m.past operations :=
  m.past_append operations [last]

/-- Whatever is in the past is where the history divides. -/
theorem of_mem_past {m met : Machine} {operation : Operation} {operations : List Operation}
    (h : (met, operation) ∈ m.past operations) :
    ∃ before rest, operations = before ++ operation :: rest ∧ met = m.after before := by
  induction operations generalizing m with
  | nil => exact nomatch h
  | cons first others ih =>
    rcases List.mem_append.mp h with later | now
    · obtain ⟨before, rest, rfl, rfl⟩ := ih later
      exact ⟨first :: before, rest, rfl, rfl⟩
    · obtain ⟨rfl, rfl⟩ := Prod.mk.inj (List.mem_singleton.mp now)
      exact ⟨[], others, rfl, rfl⟩

/-! ## Programs and keys -/

theorem of_loadProgram {m m' : Machine} {program : List UInt8} {address : Int}
    (h : m.loadProgram program address = .ok m') :
    ∃ memory, m.memory.load program address = .ok memory ∧ m' = { m with
      toProcessor := .startingAt address
      memory := memory
      calls := m.calls.clear
      timers := {}
      display := .lowResolution } := of_map h

/-- A program that has been loaded begins with its first two bytes. -/
theorem upcoming?_of_loadProgram {m m' : Machine} {high low : UInt8} {rest : List UInt8}
    {address : Int} (h : m.loadProgram (high :: low :: rest) address = .ok m') :
    m'.upcoming? = Instruction.decode? m.hires (high.toUInt16 <<< 8 ||| low.toUInt16) := by
  obtain ⟨memory, written, rfl⟩ := of_loadProgram h
  have bytes := Memory.byteAt?_writeBlock (Memory.of_load written)
  have first : memory.byteAt? address = some high := by
    rw [bytes, if_pos (by simp only [List.length_cons]; omega), Int.sub_self]
    rfl
  have second : memory.byteAt? (address + 1) = some low := by
    rw [bytes, if_pos (by simp only [List.length_cons]; omega),
      show address + 1 - address = 1 by omega]
    rfl
  exact upcoming?_of_bytes rfl first second

theorem of_setKey {m m' : Machine} {key : Int} {pressed : Bool} (h : m.setKey key pressed = .ok m') :
    ∃ keypad, m.keypad.set key pressed = .ok keypad ∧ m' = { m with keypad := keypad } := by
  unfold setKey at h
  cases set : m.keypad.set key pressed with
  | error failure =>
    rw [set] at h
    cases h
  | ok keypad =>
    rw [set] at h
    exact ⟨keypad, rfl, (Except.ok.inj h).symm⟩

theorem answer_load (m : Machine) (program : List UInt8) (address : Int) :
    let m' := (m.answer (.load program address)).machine
    m' = m ∨ m.loadProgram program address = .ok m' := by
  cases loaded : m.loadProgram program address with
  | ok m' => exact .inr (by simp only [answer, loaded])
  | error fault => exact .inl (by simp only [answer, loaded])

theorem answer_setKey (m : Machine) (key : Int) (pressed : Bool) :
    ∃ keypad, (m.answer (.setKey key pressed)).machine = { m with keypad := keypad } := by
  cases set : m.setKey key pressed with
  | ok m' =>
    obtain ⟨keypad, _, rfl⟩ := of_setKey set
    exact ⟨keypad, by simp only [answer, set]⟩
  | error failure => exact ⟨m.keypad, by simp only [answer, set]⟩

/-! ## The invariant over a history -/

theorem clear_eq {s : CallStack} (h : s.limit = Layout.callDepth) : s.clear = {} := by
  unfold CallStack.clear
  rw [h]

theorem WellFormed.reset {m : Machine} (hm : m.WellFormed) {start : Int}
    (inside : isTarget start = true) : (m.reset start).WellFormed :=
  wellFormed_of_started inside rfl ((Memory.size_putAll _ _ _).trans hm.memory)
    (clear_eq hm.calls.limit) rfl

theorem WellFormed.load {m m' : Machine} (hm : m.WellFormed) {program : List UInt8} {address : Int}
    (inside : isTarget address = true) (h : m.loadProgram program address = .ok m') :
    m'.WellFormed := by
  obtain ⟨memory, loaded, rfl⟩ := of_loadProgram h
  exact wellFormed_of_started inside rfl ((Memory.size_load loaded).trans hm.memory)
    (clear_eq hm.calls.limit) rfl

theorem WellFormed.answer {m : Machine} (hm : m.WellFormed) {operation : Operation}
    (inside : operation.StartsInside) : (m.answer operation).machine.WellFormed := by
  cases operation with
  | load program address =>
    rcases m.answer_load program address with kept | loaded
    · exact kept.symm ▸ hm
    · exact hm.load (isTarget_iff.mpr inside) loaded
  | reset start => exact hm.reset (isTarget_iff.mpr inside)
  | step => exact hm.step
  | tick => exact { hm with }
  | setKey key pressed =>
    obtain ⟨keypad, answered⟩ := m.answer_setKey key pressed
    rw [answered]
    exact { hm with }
  | setDialect dialect => exact { hm with }

theorem WellFormed.after {m : Machine} (hm : m.WellFormed) {operations : List Operation}
    (inside : ∀ operation ∈ operations, operation.StartsInside) : (m.after operations).WellFormed := by
  induction operations generalizing m with
  | nil => exact hm
  | cons operation rest ih =>
    obtain ⟨first, others⟩ := List.forall_mem_cons.mp inside
    exact ih (hm.answer first) others

/-! ## The configuration over a history -/

theorem hires_step (m : Machine) : m.step.machine.hires = m.hires := by
  have stepped := m.stepped
  generalize m.step.machine = m', m.step.fault = fault at stepped ⊢
  cases stepped with
  | stranded _ _ _ executed | completed _ _ _ executed => exact (samePlace_of_execute executed).hires
  | refused _ _ _ failed => exact (samePlace_of_execute_error failed).hires
  | _ => rfl

theorem hires_answer (m : Machine) (operation : Operation) :
    (m.answer operation).machine.hires = m.hires := by
  cases operation with
  | load program address =>
    rcases m.answer_load program address with kept | loaded
    · rw [kept]
    · obtain ⟨_, _, answered⟩ := of_loadProgram loaded
      rw [answered]
  | step => exact m.hires_step
  | setKey key pressed =>
    obtain ⟨keypad, answered⟩ := m.answer_setKey key pressed
    rw [answered]
  | reset | tick | setDialect => rfl

theorem hires_after (m : Machine) (operations : List Operation) :
    (m.after operations).hires = m.hires := by
  induction operations generalizing m with
  | nil => rfl
  | cons operation rest ih => exact (ih (m.answer operation).machine).trans (m.hires_answer operation)

/-! ## The bounds of every state -/

/-- The bounds of a machine, field by field. -/
structure InBounds (m : Machine) : Prop where
  memory : m.memory.cells.size = 0x1000
  registers : ∀ x, (m.getV x).toNat ≤ 0xFF
  delay : m.timers.delay.toNat ≤ 0xFF
  sound : m.timers.sound.toNat ≤ 0xFF
  index : 0 ≤ m.i ∧ m.i ≤ 0xFFFF
  pc : m.pc % 2 = 0 ∧ 0 ≤ m.pc ∧ m.pc ≤ 0xFFE
  depth : m.calls.items.length ≤ 16
  returns : ∀ address ∈ m.calls.items, address % 2 = 0 ∧ 2 ≤ address ∧ address ≤ 0x1000
  low : m.lowRes = true ↔ m.display.size = (64, 32)
  high : m.lowRes = false ↔ m.display.size = (128, 64)
  cells : m.display.cells.cells.size = m.display.width * m.display.height
  binary : ∀ cell ∈ m.display.cells.cells, cell = 0 ∨ cell = 1
  keyRegister : m.keyRegister.val ≤ 15
  latch : ∀ key, m.keypad.latch = some key → key.val ≤ 15

theorem WellFormed.lowRes_iff {m : Machine} (hm : m.WellFormed) (low : Bool) :
    m.lowRes = low ↔ m.display.size = if low then Layout.lowResolution else Layout.highResolution := by
  rw [hm.screen]
  cases m.lowRes <;> cases low <;> decide

theorem WellFormed.inBounds {m : Machine} (hm : m.WellFormed) : m.InBounds where
  memory := by
    rw [m.memory.cells_size, hm.memory]
    rfl
  registers x := Nat.le_of_lt_succ (m.getV x).toNat_lt
  delay := Nat.le_of_lt_succ m.timers.delay.toNat_lt
  sound := Nat.le_of_lt_succ m.timers.sound.toNat_lt
  index := hm.index
  pc := isTarget_iff.mp hm.pc
  depth := hm.calls.depth
  returns := hm.calls.returns
  low := hm.lowRes_iff true
  high := hm.lowRes_iff false
  cells := hm.display.size
  binary := hm.display.binary
  keyRegister := Nat.le_of_lt_succ m.keyRegister.isLt
  latch key _ := Nat.le_of_lt_succ key.isLt

/-- Whatever a host does with a machine, from power-on to any moment, the machine keeps its bounds,
does not leave the low resolution without having a high one, and has an opcode to fetch. -/
theorem inBounds_after (dialect : Dialect) (hires traced : Bool) (random : ByteSource)
    (operations : List Operation) (inside : ∀ operation ∈ operations, operation.StartsInside) :
    let m := (new dialect hires traced random).after operations
    m.InBounds ∧ (hires = false → m.lowRes = true) ∧ ∃ opcode, m.fetch = .ok opcode := by
  intro m
  have hm : m.WellFormed := (new_wellFormed dialect hires traced random).after inside
  have configured : m.hires = hires := hires_after _ operations
  exact ⟨hm.inBounds, fun missing => hm.lowRes (configured.trans missing), hm.fetch⟩

/-- A load into the reserved area and a key that does not exist are refused, and the machine ends at
the last place for an opcode. -/
theorem inBounds_after_refusals :
    let operations : List Operation := [.load [0x00, 0xE0] 0x100, .setKey 16 true, .reset 0xFFE, .step]
    (∀ operation ∈ operations, operation.StartsInside) ∧
      ((new {} false false (.cycle [])).after operations).InBounds :=
  ⟨by decide, (inBounds_after {} false false (.cycle []) _ (by decide)).1⟩

end Machine

end Chip8
