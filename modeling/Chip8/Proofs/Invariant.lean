import Chip8.Proofs.Step

/-! The machine invariant. Whatever a program does, and whatever its host does in between, the index,
the program counter, the return addresses, memory and screen keep their bounds, so that there always
is an opcode to fetch. -/

namespace Chip8

/-- A stack of sixteen entries at most, each the address behind a call. -/
structure CallStack.Proper (s : CallStack) : Prop where
  limit : s.limit = Layout.callDepth
  depth : s.items.length ≤ Layout.callDepth
  returns : ∀ address ∈ s.items, address % 2 = 0 ∧ 2 ≤ address ∧ address ≤ Layout.memorySize

namespace Machine

open Execution

structure WellFormed (m : Machine) : Prop where
  memory : m.memory.size = Layout.memorySize
  index : 0 ≤ m.i ∧ m.i ≤ 0xFFFF
  pc : isTarget m.pc = true
  calls : m.calls.Proper
  display : m.display.Proper
  screen : m.display.size = if m.lowRes then Layout.lowResolution else Layout.highResolution
  /-- Without a high resolution the low one is always on. -/
  lowRes : m.hires = false → m.lowRes = true

namespace WellFormed

variable {m : Machine}

theorem setV (hm : m.WellFormed) (x : Register) (b : UInt8) : (m.setV x b).WellFormed := { hm with }

theorem setFlag (hm : m.WellFormed) (on : Bool) : (m.setFlag on).WellFormed := { hm with }

theorem setRegisters (hm : m.WellFormed) (v : Registers) : { m with v := v }.WellFormed := { hm with }

theorem setIndex (hm : m.WellFormed) {i : Int} (h : 0 ≤ i ∧ i ≤ 0xFFFF) :
    { m with i := i }.WellFormed := { hm with index := h }

theorem setNext (hm : m.WellFormed) (next : Int) : { m with next := next }.WellFormed := { hm with }

theorem setMemory (hm : m.WellFormed) {memory : Memory} (h : memory.size = m.memory.size) :
    { m with memory := memory }.WellFormed := { hm with memory := h.trans hm.memory }

theorem setDisplay (hm : m.WellFormed) {d : Display} (hd : d.Proper) (size : d.size = m.display.size) :
    { m with display := d }.WellFormed := { hm with display := hd, screen := size.trans hm.screen }

theorem fetched (hm : m.WellFormed) (opcode : UInt16) : (m.fetched opcode).WellFormed := { hm with }

/-! ## One instruction -/

theorem wordOf_bounds (n : Int) : 0 ≤ wordOf n ∧ wordOf n ≤ 0xFFFF := by
  unfold wordOf
  omega

theorem advanceIndex (hm : m.WellFormed) (x : Register) : (m.advanceIndex x).WellFormed := by
  refine hm.setIndex ?_
  unfold indexAfter
  split
  · exact wordOf_bounds _
  · exact hm.index

theorem addIndex (hm : m.WellFormed) (x : Register) : (m.addIndex x).WellFormed := by
  obtain ⟨v, added⟩ := m.addIndex_eq x
  exact added ▸ (hm.setIndex (wordOf_bounds _)).setRegisters v

theorem runAlu (hm : m.WellFormed) (op : AluOp) (x y : Register) : (m.runAlu op x y).WellFormed := by
  obtain ⟨v, alu⟩ := m.runAlu_eq op x y
  exact alu ▸ hm.setRegisters v

theorem glyphAddress_bounds (b : UInt8) : 0 ≤ glyphAddress b ∧ glyphAddress b ≤ 0xFFFF := by
  unfold glyphAddress Layout.fontAddress Layout.glyphSize
  omega

theorem skipIf (hm : m.WellFormed) (condition : Bool) : (m.skipIf condition).WellFormed := by
  unfold Machine.skipIf
  split
  · exact hm.setNext _
  · exact hm

theorem setResolution (hm : m.WellFormed) {low : Bool} (h : low = false → m.hires = true) :
    (m.setResolution low).WellFormed := by
  unfold Machine.setResolution
  split
  · exact hm
  · refine { hm with display := ?_, screen := ?_, lowRes := ?_ }
    · cases low <;> exact Display.blank_proper _ _
    · cases low <;> rfl
    · intro off
      cases low with
      | true => rfl
      | false => exact absurd (h rfl) (off ▸ Bool.false_ne_true)

theorem stamped (hm : m.WellFormed) (s : Stamp) : (m.stamped s).WellFormed := by
  have size : (m.display.flipAll (m.display.under s)).size = m.display.size :=
    Prod.ext (m.display.width_flipAll _) (m.display.height_flipAll _)
  exact (hm.setDisplay (hm.display.flipAll_under s) size).setFlag _

theorem call (hm : m.WellFormed) (next : m.next = m.pc + 2) {m' : Machine} {target : Address}
    (h : (Execution.call target).run m = .ok () m') : m'.WellFormed := by
  obtain ⟨_, room, rfl⟩ := of_call h
  obtain ⟨even, low, high⟩ := isTarget_iff.mp hm.pc
  have depth : m.calls.items.length < Layout.callDepth := by
    have below := of_decide_eq_false room
    have limit := hm.calls.limit
    omega
  refine { hm with calls := ⟨hm.calls.limit, ?_, ?_⟩ }
  · rw [List.length_append, List.length_singleton]
    exact depth
  · intro address member
    rcases List.mem_append.mp member with old | new
    · exact hm.calls.returns address old
    · -- Behind a call at the end of memory lies no place for an opcode, but its address is kept.
      obtain rfl := List.mem_singleton.mp new
      rw [next]
      unfold Layout.highestPC at high
      unfold Layout.memorySize
      omega

theorem ret (hm : m.WellFormed) {m' : Machine} (h : Execution.ret.run m = .ok () m') :
    m'.WellFormed := by
  obtain ⟨address, _, _, rfl⟩ := of_ret h
  refine { hm with calls := ⟨hm.calls.limit, ?_, ?_⟩ }
  · rw [List.length_dropLast]
    exact Nat.le_trans (Nat.sub_le _ _) hm.calls.depth
  · intro address member
    exact hm.calls.returns address (List.dropLast_subset _ member)

/-- Every instruction keeps the invariant. -/
theorem execute (hm : m.WellFormed) (next : m.next = m.pc + 2) {i : Instruction} {m' : Machine}
    (allowed : i = .highResolution → m.hires = true) (h : m.execute i = .ok () m') : m'.WellFormed := by
  cases i with
  | clear =>
    cases h
    exact hm.setDisplay hm.display.clear rfl
  | ret => exact hm.ret h
  | lowResolution =>
    cases h
    exact hm.setResolution fun off => nomatch off
  | highResolution =>
    cases h
    exact hm.setResolution fun _ => allowed rfl
  | jump target | jumpOffset target =>
    obtain ⟨_, rfl⟩ := of_jump h
    exact hm.setNext _
  | call target => exact hm.call next h
  | skipIfByte | skipUnlessByte | skipIfEqual | skipUnlessEqual | skipIfKey | skipUnlessKey =>
    cases h
    exact hm.skipIf _
  | setByte | addByte | readDelay =>
    cases h
    exact hm.setV _ _
  | alu op x y =>
    cases h
    exact hm.runAlu op x y
  | setIndex target =>
    cases h
    exact hm.setIndex (by have := target.isLt; omega)
  | random | setDelay | setSound | awaitKey =>
    cases h
    exact { hm with }
  | draw x y height =>
    cases stamp : m.stampAt x y height with
    | error fault => cases (run_draw_of_refused stamp).symm.trans h
    | ok s =>
      cases (run_draw_of_proper hm.display stamp).symm.trans h
      exact hm.stamped s
  | addIndex x =>
    cases h
    exact hm.addIndex x
  | glyph x =>
    cases h
    exact hm.setIndex (glyphAddress_bounds _)
  | decimal x =>
    obtain ⟨memory, stored, rfl⟩ := of_storeDecimal h
    exact hm.setMemory (Memory.size_writeBlock stored)
  | dump x =>
    obtain ⟨memory, stored, rfl⟩ := of_dump h
    exact (hm.setMemory (Memory.size_writeBlock stored)).advanceIndex x
  | fill x =>
    obtain ⟨bytes, _, rfl⟩ := of_fill h
    exact (hm.setRegisters _).advanceIndex x

/-! ## One step -/

/-- There is an opcode at the program counter. -/
theorem fetch (hm : m.WellFormed) : ∃ opcode, m.fetch = .ok opcode := exists_fetch hm.memory hm.pc

/-- Every step keeps the invariant, whether it fails or not. -/
theorem step (hm : m.WellFormed) : m.step.machine.WellFormed := by
  have stepped := m.stepped
  generalize m.step.machine = m', m.step.fault = fault at stepped ⊢
  cases stepped with
  | waiting | stuck => exact hm
  | resolved _ _ target => exact { hm with pc := target }
  | unfetched => exact { hm with }
  | unknown => exact hm.fetched _
  | refused _ _ _ failed =>
    rw [eq_of_execute_error (hm.fetched _).display failed]
    exact hm.fetched _
  | stranded _ _ decoded executed =>
    exact (hm.fetched _).execute rfl (fun high => Instruction.hires_of_decode (high ▸ decoded)) executed
  | completed _ _ decoded executed target =>
    have done := (hm.fetched _).execute rfl
      (fun high => Instruction.hires_of_decode (high ▸ decoded)) executed
    exact { done with pc := target }

end WellFormed

/-! ## Power-on -/

theorem lowResolution_proper : Display.lowResolution.Proper :=
  Display.blank_proper _ _

theorem bareMemory_size : bareMemory.size = Layout.memorySize :=
  Memory.size_putAll _ _ _

/-- A machine with empty calls and a dark screen that starts at a place for an opcode. -/
theorem wellFormed_of_started {m : Machine} {start : Int} (inside : isTarget start = true)
    (started : m.toProcessor = .startingAt start) (memory : m.memory.size = Layout.memorySize)
    (calls : m.calls = {}) (display : m.display = .lowResolution) : m.WellFormed := by
  have index : m.i = 0 := congrArg Processor.i started
  have low : m.lowRes = true := congrArg Processor.lowRes started
  exact {
    memory := memory
    index := by rw [index]; decide
    pc := (congrArg Processor.pc started) ▸ inside
    calls := calls ▸ ⟨rfl, Nat.zero_le _, fun _ member => nomatch member⟩
    display := display ▸ lowResolution_proper
    screen := by rw [display, low]; rfl
    lowRes := fun _ => low }

theorem new_wellFormed (dialect : Dialect) (hires traced : Bool) (random : ByteSource) :
    (new dialect hires traced random).WellFormed :=
  wellFormed_of_started (by decide) rfl bareMemory_size rfl rfl

end Machine

end Chip8
