import Chip8.Machine.Execute
import Chip8.Instruction.Decode
import Chip8.Proofs.Sprite

/-! What single instructions do. Most of them fall through: they fail exactly if the bytes they need
from I on leave memory, and go on with the next instruction or skip it. The others say themselves
where to go on, and are done with every check when they succeed. -/

namespace Chip8

/-! ## Registers -/

namespace Machine

@[simp] theorem getV_setV_self (m : Machine) (x : Register) (b : UInt8) : (m.setV x b).getV x = b :=
  Vector.getElem_set_self x.isLt

@[simp] theorem getV_setFlag (m : Machine) (on : Bool) :
    (m.setFlag on).getV .flag = if on then 1 else 0 := getV_setV_self m _ _

/-- Arithmetic changes nothing but registers. -/
theorem runAlu_eq (m : Machine) (op : AluOp) (x y : Register) :
    ∃ v, m.runAlu op x y = { m with v := v } := by
  unfold runAlu
  split
  · exact ⟨_, rfl⟩
  · split
    · exact ⟨_, rfl⟩
    · exact ⟨_, rfl⟩

/-- Adding to I changes I and perhaps registers. -/
theorem addIndex_eq (m : Machine) (x : Register) :
    ∃ v, m.addIndex x = { m with i := wordOf (m.i + (m.getV x).toNat), v := v } := by
  simp only [addIndex]
  split
  · exact ⟨_, rfl⟩
  · exact ⟨_, rfl⟩

end Machine

/-! ## Families of instructions -/

/-- Instructions that go on with the next one or skip it. -/
def Instruction.fallsThrough : Instruction → Bool
  | ret | jump _ | call _ | jumpOffset _ | awaitKey _ => false
  | _ => true

/-- Only a machine that has a high resolution knows the instruction that changes to it. -/
theorem Instruction.hires_of_decode {hires : Bool} {opcode : UInt16}
    (h : decode? hires opcode = some highResolution) : hires = true := by
  unfold decode? at h
  repeat' split at h
  all_goals first
    | assumption
    | cases h
    | obtain ⟨_, _, other⟩ := Option.map_eq_some_iff.mp h
      cases other

namespace Machine

/-- Whether an instruction skips the next one. -/
def skips (m : Machine) : Instruction → Bool
  | .skipIfByte x byte => m.getV x == byte
  | .skipUnlessByte x byte => m.getV x != byte
  | .skipIfEqual x y => m.getV x == m.getV y
  | .skipUnlessEqual x y => m.getV x != m.getV y
  | .skipIfKey x => m.keypad.isDown (m.getV x).toNat
  | .skipUnlessKey x => !m.keypad.isDown (m.getV x).toNat
  | _ => false

/-- How many bytes from I on an instruction needs. -/
def span (m : Machine) : Instruction → Nat
  | .draw _ _ height =>
    if height.val = 0 then if m.hires then if m.lowRes then 16 else 32 else 0 else height.val
  | .decimal _ => 3
  | .dump x | .fill x => x.val + 1
  | _ => 0

theorem bytes_shape (m : Machine) (x y : Register) (height : Fin 16) :
    (m.shape height).bytes = m.span (.draw x y height) := by
  unfold shape span SpriteShape.ofHeight SpriteShape.bytes
  cases m.hires <;> cases m.lowRes <;> by_cases h : height.val = 0 <;> simp [h]

/-! ## Instructions that check before they change -/

theorem isTarget_iff {address : Int} :
    isTarget address = true ↔ address % 2 = 0 ∧ 0 ≤ address ∧ address ≤ Layout.highestPC := by
  simp only [isTarget, Bool.and_eq_true, beq_iff_eq, decide_eq_true_eq, and_assoc]

/-- Only the last opcode has no place behind it. -/
theorem isTarget_add_two {address : Int} (h : isTarget address = true) :
    isTarget (address + 2) = true ↔ address ≠ 0xFFE := by
  rw [isTarget_iff] at h ⊢
  unfold Layout.highestPC at h ⊢
  omega

theorem checkTarget_of_target {m : Machine} {address : Int} (h : isTarget address = true) :
    m.checkTarget address = .ok address := if_pos h

theorem checkTarget_of_nowhere {m : Machine} {address : Int} (h : ¬ isTarget address = true) :
    m.checkTarget address = .error (.badTarget address m.origin) := if_neg h

end Machine

namespace Execution

open Machine

theorem run_jump (m : Machine) (target : Int) : (jump target).run m =
    if isTarget target then .ok () { m with next := target }
    else .error (.badTarget target m.origin) m := by
  by_cases h : isTarget target = true
  · simp only [jump, EStateM.run_bind, EStateM.run_get, checkTarget_of_target h, run_lift_ok,
      EStateM.run_modify, if_pos h]
  · simp only [jump, EStateM.run_bind, EStateM.run_get, checkTarget_of_nowhere h, run_lift_error,
      if_neg h]

theorem run_call (m : Machine) (target : Address) : (call target).run m =
    if isTarget target.val then
      if m.calls.isFull then .error (.callsFull m.calls.limit) m
      else .ok () { m with
        calls := { m.calls with items := m.calls.items ++ [m.next] }
        next := target.val }
    else .error (.badTarget target.val m.origin) m := by
  by_cases h : isTarget target.val = true
  · rw [if_pos h]
    cases full : m.calls.isFull with
    | true =>
      simp only [call, EStateM.run_bind, EStateM.run_get, checkTarget_of_target h, run_lift_ok,
        CallStack.push, full, if_true, run_lift_error]
    | false =>
      simp only [call, EStateM.run_bind, EStateM.run_get, checkTarget_of_target h, run_lift_ok,
        CallStack.push, full, Bool.false_eq_true, if_false, EStateM.run_modify]
  · simp only [call, EStateM.run_bind, EStateM.run_get, checkTarget_of_nowhere h, run_lift_error,
      if_neg h]

theorem run_ret_of_empty {m : Machine} (h : m.calls.items = []) :
    ret.run m = .error .callsEmpty m := by
  have top : m.calls.peek = .error .callsEmpty := by rw [CallStack.peek, h]; rfl
  simp only [ret, EStateM.run_bind, EStateM.run_get, top, run_lift_error]

theorem run_ret_of_last {m : Machine} {address : Int} (h : m.calls.items.getLast? = some address) :
    ret.run m = if isTarget address then
        .ok () { m with next := address, calls := { m.calls with items := m.calls.items.dropLast } }
      else .error (.badTarget address m.origin) m := by
  have top : m.calls.peek = .ok address := by rw [CallStack.peek, h]
  by_cases target : isTarget address = true
  · have popped : m.calls.pop = .ok (address, { m.calls with items := m.calls.items.dropLast }) := by
      rw [CallStack.pop, top]
      rfl
    simp only [ret, EStateM.run_bind, EStateM.run_get, top, run_lift_ok, run_jump, if_pos target,
      popped, EStateM.run_modify]
  · simp only [ret, EStateM.run_bind, EStateM.run_get, top, run_lift_ok, run_jump, if_neg target]

theorem run_store_of_written {m : Machine} {address : Int} {block : List UInt8} {memory : Memory}
    (h : m.memory.writeBlock address block = .ok memory) :
    (store address block).run m = .ok () { m with memory := memory } := by
  obtain ⟨fits, rfl⟩ := Memory.of_writeBlock h
  simp only [store, EStateM.run_bind, EStateM.run_get, Memory.checkSpan_of_fits fits, run_lift_ok,
    Memory.assign_of_fits fits, EStateM.run_modify]

theorem run_store_of_refused {m : Machine} {address : Int} {block : List UInt8} {fault : Fault}
    (h : m.memory.writeBlock address block = .error fault) :
    (store address block).run m = .error fault m := by
  have refused := Memory.checkSpan_of_unwritten h
  simp only [store, EStateM.run_bind, EStateM.run_get, refused, run_lift_error]

theorem run_storeDecimal_of_written {m : Machine} {x : Register} {memory : Memory}
    (h : m.memory.writeBlock m.i (digitsOf (m.getV x)) = .ok memory) :
    (storeDecimal x).run m = .ok () { m with memory := memory } := run_store_of_written h

theorem run_storeDecimal_of_refused {m : Machine} {x : Register} {fault : Fault}
    (h : m.memory.writeBlock m.i (digitsOf (m.getV x)) = .error fault) :
    (storeDecimal x).run m = .error fault m := run_store_of_refused h

theorem run_dump_of_written {m : Machine} {x : Register} {memory : Memory}
    (h : m.memory.writeBlock m.i (m.v.toList.take (x.val + 1)) = .ok memory) :
    (dump x).run m = .ok () ({ m with memory := memory }.advanceIndex x) := by
  simp only [dump, EStateM.run_bind, EStateM.run_get, run_store_of_written h, EStateM.run_modify]

theorem run_dump_of_refused {m : Machine} {x : Register} {fault : Fault}
    (h : m.memory.writeBlock m.i (m.v.toList.take (x.val + 1)) = .error fault) :
    (dump x).run m = .error fault m := by
  simp only [dump, EStateM.run_bind, EStateM.run_get, run_store_of_refused h]

theorem run_fill_of_read {m : Machine} {x : Register} {bytes : List UInt8}
    (h : m.memory.readBlock m.i (x.val + 1) = .ok bytes) :
    (fill x).run m = .ok () ({ m with v := replaceFirst m.v bytes }.advanceIndex x) := by
  simp only [fill, EStateM.run_bind, EStateM.run_get, h, run_lift_ok, EStateM.run_modify]

theorem run_fill_of_refused {m : Machine} {x : Register} {fault : Fault}
    (h : m.memory.readBlock m.i (x.val + 1) = .error fault) : (fill x).run m = .error fault m := by
  simp only [fill, EStateM.run_bind, EStateM.run_get, h, run_lift_error]

end Execution

namespace Machine

open Execution

theorem length_dumped (m : Machine) (x : Register) :
    (m.v.toList.take (x.val + 1)).length = x.val + 1 := by
  rw [List.length_take, Vector.length_toList]
  exact Nat.min_eq_left x.isLt

/-! ## Instructions that fall through -/

theorem next_skipIf (m : Machine) (condition : Bool) :
    (m.skipIf condition).next = m.next + if condition then 2 else 0 := by
  cases condition with
  | true => rfl
  | false => exact (Int.add_zero m.next).symm

theorem next_addIndex (m : Machine) (x : Register) : (m.addIndex x).next = m.next := by
  obtain ⟨v, added⟩ := m.addIndex_eq x
  rw [added]

theorem next_runAlu (m : Machine) (op : AluOp) (x y : Register) : (m.runAlu op x y).next = m.next := by
  obtain ⟨v, alu⟩ := m.runAlu_eq op x y
  rw [alu]

theorem next_setResolution (m : Machine) (low : Bool) : (m.setResolution low).next = m.next := by
  unfold setResolution
  split <;> rfl

-- The registers are made opaque first: they are sixteen reads each, and nothing here looks at them.
theorem next_filled (m : Machine) (x : Register) (bytes : List UInt8) :
    ({ m with v := replaceFirst m.v bytes }.advanceIndex x).next = m.next := by
  generalize replaceFirst m.v bytes = v
  rfl

/-- With its bytes in memory an instruction that falls through succeeds. -/
theorem execute_of_fits {m : Machine} (hd : m.display.Proper) {i : Instruction}
    (falls : i.fallsThrough = true) (fits : m.memory.Fits m.i (m.span i)) :
    ∃ m', m.execute i = .ok () m' ∧ m'.next = m.next + if m.skips i then 2 else 0 := by
  have stay : m.next = m.next + 0 := (Int.add_zero m.next).symm
  cases i with
  | ret | jump | call | jumpOffset | awaitKey => cases falls
  | skipIfByte | skipUnlessByte | skipIfEqual | skipUnlessEqual | skipIfKey | skipUnlessKey =>
    exact ⟨_, rfl, next_skipIf m _⟩
  | clear | setByte | addByte | setIndex | random | readDelay | setDelay | setSound | glyph =>
    exact ⟨_, rfl, stay⟩
  | lowResolution | highResolution => exact ⟨_, rfl, (next_setResolution m _).trans stay⟩
  | alu => exact ⟨_, rfl, (next_runAlu m _ _ _).trans stay⟩
  | addIndex => exact ⟨_, rfl, (next_addIndex m _).trans stay⟩
  | draw x y height =>
    rw [← bytes_shape m x y] at fits
    exact ⟨_, run_draw_of_proper hd (stampAt_of_fits x y fits), stay⟩
  | decimal x =>
    have fits : m.memory.Fits m.i (digitsOf (m.getV x)).length := fits
    exact ⟨_, run_storeDecimal_of_written (Memory.writeBlock_of_fits fits), stay⟩
  | dump x =>
    have fits : m.memory.Fits m.i (m.v.toList.take (x.val + 1)).length := by
      rw [length_dumped]
      exact fits
    exact ⟨_, run_dump_of_written (Memory.writeBlock_of_fits fits), stay⟩
  | fill x =>
    have fits : m.memory.Fits m.i (x.val + 1 : Nat) := fits
    exact ⟨_, run_fill_of_read (Memory.readBlock_of_fits fits), (m.next_filled x _).trans stay⟩

/-- A skip changes nothing but the place to go on. -/
theorem execute_of_skips {m : Machine} {i : Instruction} (h : m.skips i = true) :
    m.execute i = .ok () { m with next := m.next + 2 } := by
  cases i with
  | skipIfByte | skipUnlessByte | skipIfEqual | skipUnlessEqual | skipIfKey | skipUnlessKey =>
    exact congrArg (EStateM.Result.ok ()) (if_pos h)
  | _ => cases h

/-- Without its bytes in memory an instruction fails before it has changed anything. -/
theorem execute_of_not_fits {m : Machine} {i : Instruction}
    (beyond : ¬ m.memory.Fits m.i (m.span i)) :
    ∃ fault : Fault, m.execute i = .error fault m ∧ fault.kind = .memory := by
  cases i with
  | draw x y height =>
    rw [← bytes_shape m x y] at beyond
    obtain ⟨fault, failed, kind⟩ := stampAt_of_not_fits x y beyond
    exact ⟨fault, run_draw_of_refused failed, kind⟩
  | decimal x =>
    have beyond : ¬ m.memory.Fits m.i (digitsOf (m.getV x)).length := beyond
    obtain ⟨fault, failed, kind⟩ := Memory.writeBlock_of_not_fits beyond
    exact ⟨fault, run_storeDecimal_of_refused failed, kind⟩
  | dump x =>
    have beyond : ¬ m.memory.Fits m.i (m.v.toList.take (x.val + 1)).length := by
      rw [length_dumped]
      exact beyond
    obtain ⟨fault, failed, kind⟩ := Memory.writeBlock_of_not_fits beyond
    exact ⟨fault, run_dump_of_refused failed, kind⟩
  | fill x =>
    have beyond : ¬ m.memory.Fits m.i (x.val + 1 : Nat) := beyond
    obtain ⟨fault, failed, kind⟩ := Memory.readBlock_of_not_fits beyond
    exact ⟨fault, run_fill_of_refused failed, kind⟩
  | _ => exact absurd (fun positive => absurd positive (Int.lt_irrefl 0)) beyond

end Machine

/-! ## What has been done, and what has not -/

namespace Execution

open Machine

variable {m m' : Machine}

theorem of_modify {f : Machine → Machine} (h : (modify f : Execution Unit).run m = .ok () m') :
    m' = f m := by
  cases h
  rfl

theorem of_jump {target : Int} (h : (jump target).run m = .ok () m') :
    isTarget target = true ∧ m' = { m with next := target } := by
  rw [run_jump] at h
  split at h
  · next target =>
    cases h
    exact ⟨target, rfl⟩
  · cases h

theorem of_call {target : Address} (h : (call target).run m = .ok () m') :
    isTarget target.val = true ∧ m.calls.isFull = false ∧
      m' = { m with
        calls := { m.calls with items := m.calls.items ++ [m.next] }
        next := target.val } := by
  rw [run_call] at h
  split at h
  · next target =>
    split at h
    · cases h
    · next room =>
      cases h
      exact ⟨target, Bool.eq_false_iff.mpr room, rfl⟩
  · cases h

theorem of_ret (h : ret.run m = .ok () m') :
    ∃ address, m.calls.items.getLast? = some address ∧ isTarget address = true ∧
      m' = { m with
        next := address
        calls := { m.calls with items := m.calls.items.dropLast } } := by
  cases top : m.calls.items.getLast? with
  | none =>
    rw [run_ret_of_empty (List.getLast?_eq_none_iff.mp top)] at h
    cases h
  | some address =>
    rw [run_ret_of_last top] at h
    split at h
    · next target =>
      cases h
      exact ⟨address, rfl, target, rfl⟩
    · cases h

theorem of_storeDecimal {x : Register} (h : (storeDecimal x).run m = .ok () m') :
    ∃ memory, m.memory.writeBlock m.i (digitsOf (m.getV x)) = .ok memory ∧
      m' = { m with memory := memory } := by
  cases written : m.memory.writeBlock m.i (digitsOf (m.getV x)) with
  | error fault => cases (run_storeDecimal_of_refused written).symm.trans h
  | ok memory =>
    cases (run_storeDecimal_of_written written).symm.trans h
    exact ⟨memory, rfl, rfl⟩

theorem of_dump {x : Register} (h : (dump x).run m = .ok () m') :
    ∃ memory, m.memory.writeBlock m.i (m.v.toList.take (x.val + 1)) = .ok memory ∧
      m' = { m with memory := memory }.advanceIndex x := by
  cases written : m.memory.writeBlock m.i (m.v.toList.take (x.val + 1)) with
  | error fault => cases (run_dump_of_refused written).symm.trans h
  | ok memory =>
    cases (run_dump_of_written written).symm.trans h
    exact ⟨memory, rfl, rfl⟩

theorem of_fill {x : Register} (h : (fill x).run m = .ok () m') :
    ∃ bytes, m.memory.readBlock m.i (x.val + 1) = .ok bytes ∧
      m' = { m with v := replaceFirst m.v bytes }.advanceIndex x := by
  cases read : m.memory.readBlock m.i (x.val + 1) with
  | error fault => cases (run_fill_of_refused read).symm.trans h
  | ok bytes =>
    cases (run_fill_of_read read).symm.trans h
    exact ⟨bytes, rfl, rfl⟩

theorem of_storeDecimal_error {x : Register} {fault : Fault}
    (h : (storeDecimal x).run m = .error fault m') :
    m.memory.writeBlock m.i (digitsOf (m.getV x)) = .error fault ∧ m' = m := by
  cases written : m.memory.writeBlock m.i (digitsOf (m.getV x)) with
  | ok memory => cases (run_storeDecimal_of_written written).symm.trans h
  | error refused =>
    cases (run_storeDecimal_of_refused written).symm.trans h
    exact ⟨rfl, rfl⟩

theorem of_dump_error {x : Register} {fault : Fault} (h : (dump x).run m = .error fault m') :
    m.memory.writeBlock m.i (m.v.toList.take (x.val + 1)) = .error fault ∧ m' = m := by
  cases written : m.memory.writeBlock m.i (m.v.toList.take (x.val + 1)) with
  | ok memory => cases (run_dump_of_written written).symm.trans h
  | error refused =>
    cases (run_dump_of_refused written).symm.trans h
    exact ⟨rfl, rfl⟩

theorem of_fill_error {x : Register} {fault : Fault} (h : (fill x).run m = .error fault m') :
    m.memory.readBlock m.i (x.val + 1) = .error fault ∧ m' = m := by
  cases read : m.memory.readBlock m.i (x.val + 1) with
  | ok bytes => cases (run_fill_of_read read).symm.trans h
  | error refused =>
    cases (run_fill_of_refused read).symm.trans h
    exact ⟨rfl, rfl⟩

theorem of_draw {x y : Register} {height : Nat} (h : (draw x y height).run m = .ok () m') :
    ∃ d hit, m' = { m with display := d }.setFlag hit := by
  cases stamp : m.stampAt x y height with
  | error fault => cases (run_draw_of_refused stamp).symm.trans h
  | ok s =>
    rw [run_draw_of_stampAt stamp, EStateM.run_bind] at h
    split at h
    · next drawn =>
      obtain ⟨d, rfl⟩ := of_onDisplay drawn
      cases h
      exact ⟨d, _, rfl⟩
    · cases h

end Execution

namespace Machine

open Execution

theorem of_map {α β : Type} {e : Except Fault α} {f : α → β} {b : β} (h : e.map f = .ok b) :
    ∃ a, e = .ok a ∧ b = f a := by
  cases e with
  | error fault => cases h
  | ok a => exact ⟨a, rfl, (Except.ok.inj h).symm⟩

theorem of_toOption {α : Type} {e : Except Fault α} {a : α} (h : e.toOption = some a) : e = .ok a := by
  cases e with
  | error fault => cases h
  | ok b => exact congrArg Except.ok (Option.some.inj h)

/-- An instruction that says itself where to go on has checked the place. -/
theorem isTarget_next {m m' : Machine} {i : Instruction} (here : isTarget m.pc = true)
    (control : i.fallsThrough = false) (h : m.execute i = .ok () m') : isTarget m'.next = true := by
  cases i with
  | ret =>
    obtain ⟨_, _, target, rfl⟩ := of_ret h
    exact target
  | jump target | jumpOffset target =>
    obtain ⟨target, rfl⟩ := of_jump h
    exact target
  | call target =>
    obtain ⟨target, _, rfl⟩ := of_call h
    exact target
  | awaitKey x =>
    cases h
    exact here
  | _ => cases control

/-! ## Failure -/

/-- An instruction that fails has changed nothing. Only on a screen that lacks cells may a draw have
begun before it fails. -/
theorem of_execute_error {m m' : Machine} {i : Instruction} {fault : Fault}
    (h : m.execute i = .error fault m') :
    m' = m ∨ ∃ x y height d, i = .draw x y height ∧ ¬ m.display.Proper ∧
      m' = { m with display := d } := by
  cases i with
  | ret =>
    cases top : m.calls.items.getLast? with
    | none =>
      cases (run_ret_of_empty (List.getLast?_eq_none_iff.mp top)).symm.trans h
      exact .inl rfl
    | some address =>
      have h := (run_ret_of_last top).symm.trans h
      split at h <;> cases h
      exact .inl rfl
  | jump target | jumpOffset target =>
    have h := (run_jump _ _).symm.trans h
    split at h <;> cases h
    exact .inl rfl
  | call target =>
    have h := (run_call _ _).symm.trans h
    split at h
    · split at h <;> cases h
      exact .inl rfl
    · cases h
      exact .inl rfl
  | decimal x => exact .inl (of_storeDecimal_error h).2
  | dump x => exact .inl (of_dump_error h).2
  | fill x => exact .inl (of_fill_error h).2
  | draw x y height =>
    cases stamp : m.stampAt x y height with
    | error refused =>
      cases (run_draw_of_refused stamp).symm.trans h
      exact .inl rfl
    | ok s =>
      have lacking : ¬ m.display.Proper := fun hd =>
        nomatch (run_draw_of_proper hd stamp).symm.trans h
      have h := (run_draw_of_stampAt stamp).symm.trans h
      rw [EStateM.run_bind] at h
      split at h
      · cases h
      · next drawn =>
        cases h
        exact .inr ⟨x, y, height, _, rfl, lacking, (of_onDisplay_error drawn).1⟩
  | _ => cases h

/-- Whatever fails on a screen with a cell for each pixel leaves the machine as it was. -/
theorem eq_of_execute_error {m m' : Machine} (hd : m.display.Proper) {i : Instruction} {fault : Fault}
    (h : m.execute i = .error fault m') : m' = m := by
  rcases of_execute_error h with same | ⟨_, _, _, _, _, lacking, _⟩
  · exact same
  · exact absurd hd lacking

/-- Two machines agree on where they are and on how they are configured. -/
structure SamePlace (m m' : Machine) : Prop where
  pc : m'.pc = m.pc
  origin : m'.origin = m.origin
  executed : m'.executed = m.executed
  dialect : m'.dialect = m.dialect
  hires : m'.hires = m.hires
  traced : m'.traced = m.traced

/-- No instruction moves the program counter by itself, or counts itself. -/
theorem samePlace_of_execute {m m' : Machine} {i : Instruction} (h : m.execute i = .ok () m') :
    m.SamePlace m' := by
  cases i with
  | clear | setByte | addByte | setIndex | random | readDelay | setDelay | setSound | glyph
  | awaitKey =>
    cases h
    constructor <;> rfl
  | skipIfByte | skipUnlessByte | skipIfEqual | skipUnlessEqual | skipIfKey | skipUnlessKey =>
    obtain rfl := of_modify h
    unfold skipIf
    split <;> constructor <;> rfl
  | lowResolution | highResolution =>
    obtain rfl := of_modify h
    unfold setResolution
    split <;> constructor <;> rfl
  | alu op x y =>
    obtain rfl := of_modify h
    obtain ⟨v, alu⟩ := m.runAlu_eq op x y
    rw [alu]
    constructor <;> rfl
  | addIndex x =>
    obtain rfl := of_modify h
    obtain ⟨v, added⟩ := m.addIndex_eq x
    rw [added]
    constructor <;> rfl
  | ret =>
    obtain ⟨_, _, _, rfl⟩ := of_ret h
    constructor <;> rfl
  | jump target | jumpOffset target =>
    obtain ⟨_, rfl⟩ := of_jump h
    constructor <;> rfl
  | call target =>
    obtain ⟨_, _, rfl⟩ := of_call h
    constructor <;> rfl
  | draw x y height =>
    obtain ⟨_, _, rfl⟩ := of_draw h
    constructor <;> rfl
  | decimal x =>
    obtain ⟨_, _, rfl⟩ := of_storeDecimal h
    constructor <;> rfl
  | dump x =>
    obtain ⟨_, _, rfl⟩ := of_dump h
    constructor <;> rfl
  | fill x =>
    obtain ⟨bytes, _, rfl⟩ := of_fill h
    generalize replaceFirst m.v bytes = v
    constructor <;> rfl

/-- ... nor does one that fails. -/
theorem samePlace_of_execute_error {m m' : Machine} {i : Instruction} {fault : Fault}
    (h : m.execute i = .error fault m') : m.SamePlace m' := by
  rcases of_execute_error h with rfl | ⟨_, _, _, _, _, _, rfl⟩ <;> constructor <;> rfl

end Machine

end Chip8
