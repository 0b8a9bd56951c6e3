import Chip8.Proofs.KeyWait

/-! The counter of instructions over a history. It counts what steps complete, and counts every wait
for a key once more, when it begins: a wait that has ended stands in it as two instructions. Steps
that fail and steps that find no key leave it alone. -/

namespace Chip8

/-- The instruction that makes the machine wait for a key. -/
def Instruction.awaits : Instruction → Bool
  | awaitKey _ => true
  | _ => false

namespace Machine

variable {m m' : Machine} {x : Register} {operations : List Operation}

/-- A step that completes an instruction: it executes one that does not wait, or ends a wait. -/
def completes : Machine × Operation → Bool
  | (m, .step) => m.step.fault.isNone && match m.phase with
    | .running => m.upcoming?.any (!·.awaits)
    | .awaitingKey => m.keypad.latch.isSome
  | _ => false

/-- A step that begins a wait. -/
def beginsWait : Machine × Operation → Bool
  | (m, .step) => m.step.fault.isNone && m.upcoming?.any (·.awaits)
  | _ => false

/-! ## One operation -/

/-- A step counts what it completes, and the beginning of a wait. -/
theorem executed_step (m : Machine) : m.step.machine.executed = m.executed +
    (if completes (m, .step) then 1 else 0) + (if beginsWait (m, .step) then 1 else 0) := by
  have stepped := m.stepped
  generalize m.step.machine = after, failed : m.step.fault = fault at stepped ⊢
  simp only [completes, beginsWait, failed]
  cases stepped with
  | waiting phase latch | resolved phase latch =>
    simp [phase, latch, upcoming?_of_awaitingKey phase]
  | completed phase fetched decoded executed =>
    have upcoming := (upcoming?_of_fetched phase fetched).trans decoded
    have same := (samePlace_of_execute executed).executed
    simp only [phase, upcoming, same, Option.isNone_none, Option.any_some, Bool.true_and]
    -- Whether it waits or not, one of the two counts is one.
    cases Instruction.awaits _ <;> rfl
  | stranded _ _ _ executed => exact (samePlace_of_execute executed).executed
  | refused _ _ _ refused => exact (samePlace_of_execute_error refused).executed
  | stuck | unfetched | unknown => rfl

theorem executed_answer (m : Machine) {operation : Operation} (on : operation.continues) :
    (m.answer operation).machine.executed = m.executed +
      (if completes (m, operation) then 1 else 0) +
      (if beginsWait (m, operation) then 1 else 0) := by
  cases operation with
  | load | reset => cases on
  | step => exact m.executed_step
  | setKey key pressed =>
    obtain ⟨keypad, answered⟩ := m.answer_setKey key pressed
    rw [answered]
    rfl
  | tick | setDialect => rfl

/-! ## A history -/

theorem executed_after (m : Machine) (on : ∀ operation ∈ operations, operation.continues) :
    (m.after operations).executed = m.executed + (m.past operations).countP completes +
      (m.past operations).countP beginsWait := by
  induction operations using List.reverseRecOn with
  | nil => rfl
  | append_singleton operations last ih =>
    obtain ⟨earlier, latest⟩ := List.forall_mem_append.mp on
    have now := (m.after operations).executed_answer (latest last (by simp))
    rw [after_concat, past_concat, now, ih earlier, List.countP_cons, List.countP_cons]
    omega

/-! ## A wait -/

theorem done_of_awaitKey (asked : m.upcoming? = some (.awaitKey x)) (here : isTarget m.pc = true) :
    m.step.fault = none := by
  obtain ⟨_, opcode, _, step⟩ := of_upcoming? asked
  rw [step, (perform_of_ok (m := m.fetched opcode) (i := .awaitKey x) rfl).2]
  exact if_pos here

/-- From the step that begins a wait to the step that ends it the counter grows by two. -/
theorem executed_of_wait (asked : m.upcoming? = some (.awaitKey x)) (done : m.step.fault = none)
    (on : ∀ operation ∈ operations, operation.continues) (room : m.pc ≤ 0xFFC)
    {key : Fin Layout.keyCount} (latest : lastPress (m.step.machine.past operations) = some key)
    (first : ∀ before rest, operations = before ++ .step :: rest →
      lastPress (m.step.machine.past before) = none) :
    (m.step.machine.after operations).step.machine.executed = m.executed + 2 := by
  obtain ⟨here, opcode, begun⟩ := step_of_awaitKey asked done
  generalize m.step.machine = w at begun latest first ⊢
  have phase : w.phase = .awaitingKey := by rw [begun]; rfl
  have latch : w.keypad.latch = none := by rw [begun]; rfl
  have pc : w.pc = m.pc := by rw [begun]
  have target : isTarget (w.pc + 2) = true := by
    rw [pc]
    exact (isTarget_add_two here).mpr (by omega)
  have waits : w.Waits operations :=
    waits_of_resting phase latch on fun before rest split => .inl (first before rest split)
  rw [waits.step_of_pressed phase latest target, begun]

/-- Since the start of a program the counter is ahead of the instructions that have been completed,
by the waits that have begun. -/
theorem executed_since_start (m : Machine) {start : Operation} (begins : start.continues = false)
    (accepted : (m.answer start).failure = none)
    (on : ∀ operation ∈ operations, operation.continues) :
    let m₀ := (m.answer start).machine
    let past := m₀.past operations
    (m₀.after operations).executed = past.countP completes + past.countP beginsWait ∧
      ((m₀.after operations).executed = past.countP completes ↔
        ∀ moment ∈ past, beginsWait moment = false) := by
  intro m₀ past
  obtain ⟨address, started⟩ := (of_started begins accepted).1
  have none : m₀.executed = 0 := congrArg Processor.executed started
  have counted : (m₀.after operations).executed =
      past.countP completes + past.countP beginsWait := by
    rw [m₀.executed_after on, none, Nat.zero_add]
  refine ⟨counted, ?_⟩
  rw [counted, Nat.add_eq_left, List.countP_eq_zero]
  simp only [Bool.not_eq_true]

/-- A program that waits for a key. -/
theorem executed_since_start_waiting :
    let m := new {} false false (.cycle [])
    let program : Operation := .load [0xF3, 0x0A] 0x200
    let operations : List Operation := [.step, .tick]
    (m.answer program).failure = none ∧ (∀ operation ∈ operations, operation.continues) ∧
      ((m.answer program).machine.after operations).executed = 0 + 1 := by
  intro m program operations
  have on : ∀ operation ∈ operations, operation.continues := by decide
  have accepted : (m.answer program).failure = none := rfl
  have counted := (executed_since_start m (by rfl) accepted on).1
  obtain ⟨m₀, loaded⟩ : ∃ m₀, m.loadProgram [0xF3, 0x0A] 0x200 = .ok m₀ := ⟨_, rfl⟩
  have begun : (m.answer program).machine = m₀ := by simp only [program, answer, loaded]
  have asked : m₀.upcoming? = some (.awaitKey 3) := upcoming?_of_loadProgram loaded
  obtain ⟨memory, _, started⟩ := of_loadProgram loaded
  have phase : m₀.phase = .running := by rw [started]; rfl
  have done := done_of_awaitKey asked (by rw [started]; rfl)
  have completed : (m₀.past operations).countP completes = 0 := by
    simp [operations, past, completes, phase, asked, Instruction.awaits]
  have waits : (m₀.past operations).countP beginsWait = 1 := by
    simp [operations, past, beginsWait, done, asked, Instruction.awaits]
  rw [begun, completed, waits] at counted
  rw [begun]
  exact ⟨accepted, on, counted⟩

/-- A wait for a key that has ended is one instruction, but two in the counter. -/
theorem ended_wait_counted_twice :
    let m := new {} false false (.cycle [])
    let program : Operation := .load [0xF3, 0x0A] 0x200
    let operations : List Operation := [.step, .setKey 7 true, .step]
    let m₀ := (m.answer program).machine
    (m.answer program).failure = none ∧ (∀ operation ∈ operations, operation.continues) ∧
      (m₀.past operations).countP completes = 1 ∧ (m₀.after operations).executed = 2 := by
  intro m program operations
  have on : ∀ operation ∈ operations, operation.continues := by decide
  obtain ⟨m₀, loaded⟩ : ∃ m₀, m.loadProgram [0xF3, 0x0A] 0x200 = .ok m₀ := ⟨_, rfl⟩
  have begun : (m.answer program).machine = m₀ := by simp only [program, answer, loaded]
  have asked : m₀.upcoming? = some (.awaitKey 3) := upcoming?_of_loadProgram loaded
  obtain ⟨memory, _, started⟩ := of_loadProgram loaded
  have pc : m₀.pc = 0x200 := by rw [started]; rfl
  have idle : m₀.executed = 0 := by rw [started]; rfl
  have released : m₀.keypad = .released := by rw [started]; rfl
  have done := done_of_awaitKey asked (by rw [pc]; rfl)
  have executed : (m₀.after operations).executed = 2 := by
    have up : m₀.step.machine.keypad.down.get ⟨7, by decide⟩ = false := by
      rw [m₀.down_step, released]
      rfl
    have pressed : pressed? (m₀.step.machine, .setKey 7 true) = some ⟨7, by decide⟩ :=
      @pressed?_of_released m₀.step.machine ⟨7, by decide⟩ up
    have latest : lastPress (m₀.step.machine.past [.setKey 7 true]) = some ⟨7, by decide⟩ := by
      simp [lastPress, past, pressed]
    have ended := executed_of_wait asked done (by decide) (by rw [pc]; decide) latest
      fun before rest split => by
        have stepped : Operation.step ∈ [Operation.setKey 7 true] := by simp [split]
        simp at stepped
    rw [idle] at ended
    exact ended
  have waits : (m₀.past operations).countP beginsWait = 1 := by
    let held := (m₀.step.machine.answer (.setKey 7 true)).machine
    have still : held.upcoming? = none := by
      obtain ⟨_, opcode, waiting⟩ := step_of_awaitKey asked done
      obtain ⟨keypad, answered⟩ := m₀.step.machine.answer_setKey 7 true
      exact upcoming?_of_awaitingKey (by simp only [held, answered, waiting]; rfl)
    have moments : m₀.past operations =
        [(held, .step), (m₀.step.machine, .setKey 7 true), (m₀, .step)] := rfl
    simp [moments, beginsWait, still, done, asked, Instruction.awaits]
  have counted := m₀.executed_after on
  rw [begun]
  exact ⟨rfl, on, by omega, executed⟩

end Machine

end Chip8
