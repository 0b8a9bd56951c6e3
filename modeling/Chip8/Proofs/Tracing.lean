import Chip8.Proofs.Configuration

/-! Tracing is a matter between a machine and its observer. Nothing but the step that prints looks
at whether a machine is traced, so a traced machine and a silent one do the same for ever; and what
the traced one prints can be read off its past, one line for every instruction that it knows. -/

namespace Chip8.Machine

open Text

/-- The machine with its trace turned on or off. -/
def watch (m : Machine) (on : Bool) : Machine := { m with traced := on }

/-- The line that is due when an operation meets a machine: a step of a running machine that finds
an instruction shows the registers and the timers as they are before it. -/
def line? (m : Machine) : Operation → Option String
  | .step =>
    match m.phase, m.fetch with
    | .running, .ok opcode =>
      (Instruction.decode? m.hires opcode).map fun i =>
        "V: 0x" ++ registerText m.v ++ " I: 0x" ++ hex 4 m.i ++
          " DT: 0x" ++ hex 2 m.timers.delay.toNat ++ " ST: 0x" ++ hex 2 m.timers.sound.toNat ++
          " PC: 0x" ++ hex 3 m.pc ++ " OP: 0x" ++ hex 4 opcode.toNat ++ " IN: " ++ i.text m.dialect
    | _, _ => none
  | _ => none

/-- Everything that is printed while a history is performed. -/
def printed (m : Machine) : List Operation → List String
  | [] => []
  | operation :: rest =>
    (m.answer operation).trace.toList ++ (m.answer operation).machine.printed rest

/-! ## Watching as a change of the configuration -/

/-- No operation asks who watches. -/
theorem suits_watch (m : Machine) (on : Bool) (operation : Operation) :
    m.Suits { traced := fun _ => on } operation := by
  cases operation with
  | step => exact fun _ _ _ => ⟨rfl, fun i _ => m.agrees_self i⟩
  | setDialect => exact rfl
  | load | reset | tick | setKey => trivial

theorem answer_watch (m : Machine) (on : Bool) (operation : Operation) :
    ((m.watch on).answer operation).machine = (m.answer operation).machine.watch on ∧
      ((m.watch on).answer operation).failure = (m.answer operation).failure :=
  answer_refit (m.suits_watch on operation)

theorem after_watch (m : Machine) (on : Bool) (operations : List Operation) :
    (m.watch on).after operations = (m.after operations).watch on :=
  m.after_refit fun met operation _ => met.suits_watch on operation

/-- A machine is watched as it is from power-on. -/
theorem traced_after (m : Machine) (operations : List Operation) :
    (m.after operations).traced = m.traced := by
  have same : m.after operations = (m.after operations).watch m.traced := m.after_watch m.traced _
  rw [same]
  rfl

/-! ## Lines -/

theorem trace_ofResult (trace : Option String) (result : EStateM.Result Fault Machine Unit) :
    (Outcome.ofResult trace result).trace = trace := by
  cases result <;> rfl

/-- A traced machine prints a line before it executes an instruction, and on no other step. -/
theorem trace_step (m : Machine) : m.step.trace = if m.traced then m.line? .step else none := by
  cases phase : m.phase with
  | awaitingKey =>
    rw [step_of_awaitingKey phase, trace_ofResult]
    simp only [line?, phase, ite_self]
  | running =>
    cases fetched : m.fetch with
    | error fault =>
      rw [step_of_unfetched phase fetched]
      simp only [line?, phase, fetched, ite_self]
    | ok opcode =>
      cases decoded : Instruction.decode? m.hires opcode with
      | none =>
        rw [step_of_undecoded phase fetched decoded]
        simp only [line?, phase, fetched, decoded, Option.map_none, ite_self]
      | some i =>
        have told : ∀ m : Machine, (m.perform i).trace =
            if m.traced then some (m.report (i.text m.dialect) false) else none :=
          fun m => trace_ofResult _ _
        rw [step_of_decoded phase fetched decoded, told]
        simp only [line?, phase, fetched, decoded, Option.map_some]
        rfl

theorem trace_answer (m : Machine) (operation : Operation) :
    (m.answer operation).trace = if m.traced then m.line? operation else none := by
  cases operation with
  | step => exact m.trace_step
  | load | setKey =>
    simp only [line?, ite_self, answer]
    split <;> rfl
  | reset | tick | setDialect => simp only [line?, ite_self, answer]

theorem printed_eq (m : Machine) (operations : List Operation) :
    m.printed operations = if m.traced then
      (m.past operations).reverse.filterMap fun (met, operation) => met.line? operation else [] := by
  induction operations generalizing m with
  | nil => simp only [printed, past, List.reverse_nil, List.filterMap_nil, ite_self]
  | cons operation rest ih =>
    have traced : (m.answer operation).machine.traced = m.traced := m.traced_after [operation]
    rw [printed, ih, traced, trace_answer, past]
    cases m.traced with
    | false => rfl
    | true =>
      simp only [if_true, List.reverse_append, List.reverse_singleton, List.singleton_append,
        List.filterMap_cons]
      cases m.line? operation <;> rfl

/-- Watching changes nothing. Whatever is done to a machine that is traced from power-on and to one
that is not, they are in the same state, every operation leaves them so and fails alike, and the
traced one alone prints: a line for every step that finds an instruction, with what it finds before
it, and nothing else. -/
theorem answers_watch (dialect : Dialect) (hires : Bool) (random : ByteSource)
    (operations : List Operation) :
    let quiet := new dialect hires false random
    let live := new dialect hires true random
    live.after operations = (quiet.after operations).watch true ∧
      (∀ operation,
        let expected := (quiet.after operations).answer operation
        let answer := (live.after operations).answer operation
        answer.machine = expected.machine.watch true ∧ answer.failure = expected.failure ∧
          answer.trace = (live.after operations).line? operation ∧ expected.trace = none) ∧
      live.printed operations =
        ((live.past operations).reverse.filterMap fun (met, operation) => met.line? operation) ∧
      quiet.printed operations = [] := by
  intro quiet live
  have twins : live.after operations = (quiet.after operations).watch true :=
    quiet.after_watch true operations
  have silent : (quiet.after operations).traced = false := quiet.traced_after operations
  refine ⟨twins, fun operation => ?_, live.printed_eq operations, quiet.printed_eq operations⟩
  obtain ⟨machine, failure⟩ := (quiet.after operations).answer_watch true operation
  refine ⟨?_, ?_, ?_, ?_⟩
  · rw [twins]
    exact machine
  · rw [twins]
    exact failure
  · rw [trace_answer, live.traced_after]
    rfl
  · rw [trace_answer, silent]
    rfl

end Chip8.Machine
