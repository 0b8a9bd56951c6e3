import Chip8.Machine.Step
import Chip8.Proofs.Execute

/-! Everything a step can do. A machine that waits goes on waiting, is stuck at the end of memory, or
takes the key. A machine that runs fails to fetch, knows no such instruction, or has it refused,
executed without a place to go on, or executed to the end. -/

namespace Chip8.Machine

/-- The machine that has fetched an opcode at the program counter. -/
def fetched (m : Machine) (opcode : UInt16) : Machine :=
  { m with origin := m.pc, opcode := opcode, next := m.pc + 2 }

inductive Stepped (m : Machine) : Machine → Option Fault → Prop
  | waiting (phase : m.phase = .awaitingKey) (latch : m.keypad.latch = none) : Stepped m m none
  | stuck {key : Fin Layout.keyCount} (phase : m.phase = .awaitingKey)
      (latch : m.keypad.latch = some key) (nowhere : ¬ isTarget (m.pc + 2) = true) :
      Stepped m m (some (.badTarget (m.pc + 2) m.origin))
  | resolved {key : Fin Layout.keyCount} (phase : m.phase = .awaitingKey)
      (latch : m.keypad.latch = some key) (target : isTarget (m.pc + 2) = true) :
      Stepped m { m.setV m.keyRegister (UInt8.ofNat key) with
        phase := .running
        pc := m.pc + 2
        executed := m.executed + 1 } none
  | unfetched {fault : Fault} (phase : m.phase = .running) (missing : m.fetch = .error fault) :
      Stepped m { m with origin := m.pc } (some fault)
  | unknown {opcode : UInt16} (phase : m.phase = .running) (fetched : m.fetch = .ok opcode)
      (undecoded : Instruction.decode? m.hires opcode = none) :
      Stepped m (m.fetched opcode)
        (some (.unknownOpcode opcode m.pc ((m.fetched opcode).report "???" true)))
  | refused {opcode : UInt16} {i : Instruction} {fault : Fault} {m' : Machine}
      (phase : m.phase = .running) (fetched : m.fetch = .ok opcode)
      (decoded : Instruction.decode? m.hires opcode = some i)
      (failed : (m.fetched opcode).execute i = .error fault m') : Stepped m m' (some fault)
  | stranded {opcode : UInt16} {i : Instruction} {m' : Machine} (phase : m.phase = .running)
      (fetched : m.fetch = .ok opcode) (decoded : Instruction.decode? m.hires opcode = some i)
      (executed : (m.fetched opcode).execute i = .ok () m') (nowhere : ¬ isTarget m'.next = true) :
      Stepped m m' (some (.badTarget m'.next m'.origin))
  | completed {opcode : UInt16} {i : Instruction} {m' : Machine} (phase : m.phase = .running)
      (fetched : m.fetch = .ok opcode) (decoded : Instruction.decode? m.hires opcode = some i)
      (executed : (m.fetched opcode).execute i = .ok () m') (target : isTarget m'.next = true) :
      Stepped m { m' with pc := m'.next, executed := m'.executed + 1 } none

/-- There is an opcode at every place for one. -/
theorem exists_fetch {m : Machine} (memory : m.memory.size = Layout.memorySize)
    (pc : isTarget m.pc = true) : ∃ opcode, m.fetch = .ok opcode := by
  obtain ⟨_, low, high⟩ := isTarget_iff.mp pc
  have inside : m.pc + 1 < m.memory.size := by
    rw [memory]
    unfold Layout.highestPC at high
    unfold Layout.memorySize
    omega
  obtain ⟨first, here⟩ := Memory.exists_byteAt? low (Int.lt_of_le_of_lt (by omega) inside)
  obtain ⟨second, behind⟩ := Memory.exists_byteAt? (by omega) inside
  exact ⟨_, Memory.read16_of_bytes here behind⟩

theorem run_fetch_of_ok {m : Machine} {opcode : UInt16} (h : m.fetch = .ok opcode) :
    Execution.fetch.run m = .ok opcode (m.fetched opcode) := by
  have here : { m with origin := m.pc }.fetch = .ok opcode := h
  simp only [Execution.fetch, EStateM.run_bind, EStateM.run_modify, EStateM.run_get, here,
    Execution.run_lift_ok, EStateM.run_pure]
  rfl

theorem run_fetch_of_error {m : Machine} {fault : Fault} (h : m.fetch = .error fault) :
    Execution.fetch.run m = .error fault { m with origin := m.pc } := by
  have here : { m with origin := m.pc }.fetch = .error fault := h
  simp only [Execution.fetch, EStateM.run_bind, EStateM.run_modify, EStateM.run_get, here,
    Execution.run_lift_error]

theorem run_advance (m : Machine) : Execution.advance.run m =
    if isTarget m.next then .ok () { m with pc := m.next, executed := m.executed + 1 }
    else .error (.badTarget m.next m.origin) m := by
  by_cases h : isTarget m.next = true
  · simp only [Execution.advance, EStateM.run_bind, EStateM.run_get, checkTarget_of_target h,
      Execution.run_lift_ok, EStateM.run_modify, if_pos h]
  · simp only [Execution.advance, EStateM.run_bind, EStateM.run_get, checkTarget_of_nowhere h,
      Execution.run_lift_error, if_neg h]

theorem step_of_unfetched {m : Machine} {fault : Fault} (phase : m.phase = .running)
    (missing : m.fetch = .error fault) :
    m.step = { machine := { m with origin := m.pc }, fault := some fault } := by
  unfold step
  rw [run_fetch_of_error missing]
  split
  · next waits => exact nomatch phase.symm.trans waits
  · rfl

theorem step_of_undecoded {m : Machine} {opcode : UInt16} (phase : m.phase = .running)
    (fetched : m.fetch = .ok opcode) (undecoded : Instruction.decode? m.hires opcode = none) :
    m.step = { machine := m.fetched opcode, fault := some (.unknownOpcode opcode m.pc
      ((m.fetched opcode).report "???" true)) } := by
  have unknown : Instruction.decode? (m.fetched opcode).hires opcode = none := undecoded
  simp only [step, phase, run_fetch_of_ok fetched, unknown]
  rfl

theorem step_of_decoded {m : Machine} {opcode : UInt16} {i : Instruction} (phase : m.phase = .running)
    (fetched : m.fetch = .ok opcode) (decoded : Instruction.decode? m.hires opcode = some i) :
    m.step = (m.fetched opcode).perform i := by
  have known : Instruction.decode? (m.fetched opcode).hires opcode = some i := decoded
  simp only [step, phase, run_fetch_of_ok fetched, known]

theorem perform_of_error {m m' : Machine} {i : Instruction} {fault : Fault}
    (h : m.execute i = .error fault m') :
    (m.perform i).machine = m' ∧ (m.perform i).fault = some fault := by
  unfold execute at h
  simp only [perform, EStateM.run_bind, h, Outcome.ofResult, and_self]

theorem perform_of_ok {m m' : Machine} {i : Instruction} (h : m.execute i = .ok () m') :
    (m.perform i).machine =
        (if isTarget m'.next then { m' with pc := m'.next, executed := m'.executed + 1 } else m') ∧
      (m.perform i).fault =
        if isTarget m'.next then none else some (.badTarget m'.next m'.origin) := by
  unfold execute at h
  by_cases target : isTarget m'.next = true
  · simp only [perform, EStateM.run_bind, h, run_advance, target, if_true, Outcome.ofResult, and_self]
  · simp only [perform, EStateM.run_bind, h, run_advance, target, if_false, Bool.false_eq_true,
      Outcome.ofResult, and_self]

theorem takeKey_of_unpressed {m : Machine} (latch : m.keypad.latch = none) :
    Execution.takeKey.run m = .ok () m := by
  simp only [Execution.takeKey, EStateM.run_bind, EStateM.run_get, latch, EStateM.run_pure]

theorem takeKey_of_stuck {m : Machine} {key : Fin Layout.keyCount}
    (latch : m.keypad.latch = some key) (nowhere : ¬ isTarget (m.pc + 2) = true) :
    Execution.takeKey.run m = .error (.badTarget (m.pc + 2) m.origin) m := by
  simp only [Execution.takeKey, EStateM.run_bind, EStateM.run_get, latch,
    checkTarget_of_nowhere nowhere, Execution.run_lift_error]

theorem takeKey_of_pressed {m : Machine} {key : Fin Layout.keyCount}
    (latch : m.keypad.latch = some key) (target : isTarget (m.pc + 2) = true) :
    Execution.takeKey.run m = .ok () { m.setV m.keyRegister (UInt8.ofNat key) with
      phase := .running
      pc := m.pc + 2
      executed := m.executed + 1 } := by
  simp only [Execution.takeKey, EStateM.run_bind, EStateM.run_get, latch,
    checkTarget_of_target target, Execution.run_lift_ok, EStateM.run_modify]
  rfl

theorem step_of_awaitingKey {m : Machine} (phase : m.phase = .awaitingKey) :
    m.step = .ofResult none (Execution.takeKey.run m) := by
  simp only [step, phase]

theorem step_of_unpressed {m : Machine} (phase : m.phase = .awaitingKey)
    (latch : m.keypad.latch = none) : m.step = { machine := m } := by
  rw [step_of_awaitingKey phase, takeKey_of_unpressed latch]
  rfl

theorem step_of_stuck {m : Machine} {key : Fin Layout.keyCount} (phase : m.phase = .awaitingKey)
    (latch : m.keypad.latch = some key) (nowhere : ¬ isTarget (m.pc + 2) = true) :
    m.step = { machine := m, fault := some (.badTarget (m.pc + 2) m.origin) } := by
  rw [step_of_awaitingKey phase, takeKey_of_stuck latch nowhere]
  rfl

theorem step_of_pressed {m : Machine} {key : Fin Layout.keyCount} (phase : m.phase = .awaitingKey)
    (latch : m.keypad.latch = some key) (target : isTarget (m.pc + 2) = true) :
    m.step = { machine := { m.setV m.keyRegister (UInt8.ofNat key) with
      phase := .running
      pc := m.pc + 2
      executed := m.executed + 1 } } := by
  rw [step_of_awaitingKey phase, takeKey_of_pressed latch target]
  rfl

theorem stepped_of_awaitingKey {m : Machine} (phase : m.phase = .awaitingKey) :
    m.Stepped m.step.machine m.step.fault := by
  cases latch : m.keypad.latch with
  | none =>
    rw [step_of_unpressed phase latch]
    exact .waiting phase latch
  | some key =>
    by_cases target : isTarget (m.pc + 2) = true
    · rw [step_of_pressed phase latch target]
      exact .resolved phase latch target
    · rw [step_of_stuck phase latch target]
      exact .stuck phase latch target

theorem stepped_perform {m : Machine} {opcode : UInt16} {i : Instruction} (phase : m.phase = .running)
    (fetched : m.fetch = .ok opcode) (decoded : Instruction.decode? m.hires opcode = some i) :
    m.Stepped ((m.fetched opcode).perform i).machine ((m.fetched opcode).perform i).fault := by
  cases executed : (m.fetched opcode).execute i with
  | error fault m' =>
    obtain ⟨machine, faulted⟩ := perform_of_error executed
    rw [machine, faulted]
    exact .refused phase fetched decoded executed
  | ok _ m' =>
    obtain ⟨machine, faulted⟩ := perform_of_ok executed
    rw [machine, faulted]
    by_cases target : isTarget m'.next = true
    · rw [if_pos target, if_pos target]
      exact .completed phase fetched decoded executed target
    · rw [if_neg target, if_neg target]
      exact .stranded phase fetched decoded executed target

theorem stepped (m : Machine) : m.Stepped m.step.machine m.step.fault := by
  cases phase : m.phase with
  | awaitingKey => exact stepped_of_awaitingKey phase
  | running =>
    cases fetched : m.fetch with
    | error fault =>
      rw [step_of_unfetched phase fetched]
      exact .unfetched phase fetched
    | ok opcode =>
      cases decoded : Instruction.decode? m.hires opcode with
      | none =>
        rw [step_of_undecoded phase fetched decoded]
        exact .unknown phase fetched decoded
      | some i =>
        rw [step_of_decoded phase fetched decoded]
        exact stepped_perform phase fetched decoded

/-! ## The instruction before a step -/

/-- The instruction that a machine has before it, if it runs and finds one at its program counter. -/
def upcoming? (m : Machine) : Option Instruction :=
  match m.phase with
  | .awaitingKey => none
  | .running => m.fetch.toOption.bind (Instruction.decode? m.hires)

theorem upcoming?_of_awaitingKey {m : Machine} (phase : m.phase = .awaitingKey) :
    m.upcoming? = none := by
  simp only [upcoming?, phase]

theorem upcoming?_of_unfetched {m : Machine} {fault : Fault} (phase : m.phase = .running)
    (missing : m.fetch = .error fault) : m.upcoming? = none := by
  simp only [upcoming?, phase, missing]
  rfl

theorem upcoming?_of_fetched {m : Machine} {opcode : UInt16} (phase : m.phase = .running)
    (fetched : m.fetch = .ok opcode) : m.upcoming? = Instruction.decode? m.hires opcode := by
  simp only [upcoming?, phase, fetched]
  rfl

theorem upcoming?_of_bytes {m : Machine} {high low : UInt8} (phase : m.phase = .running)
    (first : m.memory.byteAt? m.pc = some high) (second : m.memory.byteAt? (m.pc + 1) = some low) :
    m.upcoming? = Instruction.decode? m.hires (high.toUInt16 <<< 8 ||| low.toUInt16) := by
  exact upcoming?_of_fetched phase (Memory.read16_of_bytes first second)

theorem of_upcoming? {m : Machine} {i : Instruction} (h : m.upcoming? = some i) :
    m.phase = .running ∧ ∃ opcode, m.fetch = .ok opcode ∧ m.step = (m.fetched opcode).perform i := by
  cases phase : m.phase with
  | awaitingKey =>
    rw [upcoming?_of_awaitingKey phase] at h
    cases h
  | running =>
    cases fetched : m.fetch with
    | error fault =>
      rw [upcoming?_of_unfetched phase fetched] at h
      cases h
    | ok opcode =>
      rw [upcoming?_of_fetched phase fetched] at h
      exact ⟨rfl, opcode, rfl, step_of_decoded phase fetched h⟩

end Chip8.Machine
