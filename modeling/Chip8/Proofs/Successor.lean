import Chip8.Proofs.Calls

/-! Where a step goes on. Jumps, calls and returns name their place, a wait for a key stays where it
is, and all other instructions go on with the next one or skip it. Whatever a step needs to know for
that it reads before it changes anything, so an instruction may even overwrite itself. -/

namespace Chip8.Machine

variable {m : Machine} {i : Instruction}

/-- Whether the key is held that the low nibble of a register names. -/
def holdsKey (m : Machine) (x : Register) : Bool :=
  m.keypad.down.get ⟨(m.getV x).toNat % 16, Nat.mod_lt _ (by decide)⟩

theorem topDigit_lt (target : Address) : target.val / 0x100 < 16 := by
  have := target.isLt
  omega

/-- The place where an instruction goes on; for a return with no call in progress there is none. -/
def successor? (m : Machine) : Instruction → Option Int
  | .ret => m.calls.items.getLast?
  | .jump target | .call target => some target.val
  | .jumpOffset target =>
    let topDigit : Register := ⟨target.val / 0x100, topDigit_lt target⟩
    some (target.val + (m.getV (if m.dialect.jump then topDigit else .first)).toNat)
  | .awaitKey _ => some m.pc
  | .skipIfByte x byte => some (m.pc + if m.getV x = byte then 4 else 2)
  | .skipUnlessByte x byte => some (m.pc + if m.getV x = byte then 2 else 4)
  | .skipIfEqual x y => some (m.pc + if m.getV x = m.getV y then 4 else 2)
  | .skipUnlessEqual x y => some (m.pc + if m.getV x = m.getV y then 2 else 4)
  | .skipIfKey x => some (m.pc + if m.holdsKey x then 4 else 2)
  | .skipUnlessKey x => some (m.pc + if m.holdsKey x then 2 else 4)
  | _ => some (m.pc + 2)

theorem isDown_eq (m : Machine) (x : Register) :
    m.keypad.isDown (m.getV x).toNat = m.holdsKey x := by
  have named : Keypad.keyOf (m.getV x).toNat =
      ⟨(m.getV x).toNat % 16, Nat.mod_lt _ (by decide)⟩ := by
    apply Fin.ext
    show (((m.getV x).toNat : Int) % 16).toNat = (m.getV x).toNat % 16
    omega
  show m.keypad.down.get (Keypad.keyOf (m.getV x).toNat) = _
  rw [named, holdsKey]

theorem successor?_of_fallsThrough (falls : i.fallsThrough = true) :
    m.successor? i = some (m.pc + if m.skips i then 4 else 2) := by
  cases i with
  | ret | jump | call | jumpOffset | awaitKey => cases falls
  | skipIfByte | skipIfEqual => simp only [successor?, skips, beq_iff_eq]
  | skipUnlessByte | skipUnlessEqual =>
    simp only [successor?, skips, bne_iff_ne, ite_not]
  | skipIfKey x => simp only [successor?, skips, isDown_eq]
  | skipUnlessKey x =>
    simp only [successor?, skips, isDown_eq]
    cases m.holdsKey x <;> rfl
  | _ => rfl

/-- What a step that succeeds has done. -/
theorem completed_of_done (phase : m.phase = .running) (done : m.step.fault = none) :
    ∃ opcode i m', m.upcoming? = some i ∧ (m.fetched opcode).execute i = .ok () m' ∧
      isTarget m'.next = true ∧
      m.step.machine = { m' with pc := m'.next, executed := m'.executed + 1 } := by
  have stepped := m.stepped
  generalize m.step.machine = after, m.step.fault = fault at stepped done ⊢
  cases stepped with
  | waiting waits | resolved waits => rw [phase] at waits; cases waits
  | completed _ fetched decoded executed target =>
    have upcoming : m.upcoming? = some _ := (upcoming?_of_fetched phase fetched).trans decoded
    exact ⟨_, _, _, upcoming, executed, target, rfl⟩
  | _ => cases done

/-- An instruction goes on at its successor. -/
theorem WellFormed.next_of_execute (hm : m.WellFormed) {opcode : UInt16} {m' : Machine}
    (h : (m.fetched opcode).execute i = .ok () m') : m.successor? i = some m'.next := by
  cases falls : i.fallsThrough with
  | true =>
    -- Whether it skips is decided by the machine before it, even if it goes on to change what it read.
    by_cases fits : m.memory.Fits m.i (m.span i)
    · obtain ⟨m'', executed, next⟩ := execute_of_fits (m := m.fetched opcode) hm.display falls fits
      cases h.symm.trans executed
      have next : m'.next = m.pc + 2 + if m.skips i then 2 else 0 := next
      rw [successor?_of_fallsThrough falls, next]
      cases m.skips i with
      | true => exact congrArg some (Int.add_assoc m.pc 2 2).symm
      | false => exact congrArg some (Int.add_zero (m.pc + 2)).symm
    · obtain ⟨fault, failed, _⟩ := execute_of_not_fits (m := m.fetched opcode) fits
      cases failed.symm.trans h
  | false =>
    cases i with
    | ret =>
      obtain ⟨address, top, _, rfl⟩ := Execution.of_ret h
      exact top
    | jump target =>
      obtain ⟨_, rfl⟩ := Execution.of_jump h
      rfl
    | call target =>
      obtain ⟨_, _, rfl⟩ := Execution.of_call h
      rfl
    | jumpOffset target =>
      obtain ⟨_, rfl⟩ := Execution.of_jump h
      exact congrArg some (Int.add_comm _ _)
    | awaitKey x =>
      cases h
      rfl
    | _ => cases falls

/-- A step that succeeds goes on at the successor of its instruction, which is a place for an opcode;
a call has put the address behind it on the stack. -/
theorem pc_step (hm : m.WellFormed) (phase : m.phase = .running) (done : m.step.fault = none) :
    ∃ i, m.upcoming? = some i ∧ m.successor? i = some m.step.machine.pc ∧
      (∀ target, i = .call target → m.step.machine.calls.items = m.calls.items ++ [m.pc + 2]) ∧
      m.step.machine.pc % 2 = 0 ∧ 0 ≤ m.step.machine.pc ∧ m.step.machine.pc ≤ 0xFFE := by
  obtain ⟨opcode, i, m', upcoming, executed, target, after⟩ := completed_of_done phase done
  have pc : m.step.machine.pc = m'.next := congrArg (fun m => m.pc) after
  refine ⟨i, upcoming, ?_, ?_, ?_⟩
  · rw [pc]
    exact hm.next_of_execute executed
  · rintro target rfl
    exact step_of_call upcoming done
  · rw [pc]
    exact isTarget_iff.mp target

/-- An instruction that writes zeros over itself, and goes on behind them. -/
theorem pc_step_overwritten :
    let m := { new {} false false (.cycle []) with
      i := 0x200
      memory := (Memory.zeros 0x1000).putAll 0x200 [0xF0, 0x33] }
    m.WellFormed ∧ m.phase = .running ∧ m.step.fault = none ∧
      m.step.machine.memory.byteAt? 0x200 = some 0 ∧ m.step.machine.pc = 0x202 := by
  intro m
  have hm : m.WellFormed := { new_wellFormed {} false false (.cycle []) with
    memory := by decide
    index := by decide }
  have done : m.step.fault = none := by decide +kernel
  have overwritten : m.step.machine.memory.byteAt? 0x200 = some 0 := by decide +kernel
  obtain ⟨i, upcoming, next, _⟩ := pc_step hm rfl done
  have decimal : m.upcoming? = some (.decimal 0) := by decide +kernel
  obtain rfl := Option.some.inj (upcoming.symm.trans decimal)
  exact ⟨hm, rfl, done, overwritten, (Option.some.inj next).symm⟩

end Chip8.Machine
