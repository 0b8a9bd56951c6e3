import Mathlib.Data.List.Induction
import Chip8.Proofs.Frame
import Chip8.Proofs.History

/-! Calls and their returns. A call puts its return address on top of what the stack holds, and there
it stays, whatever the program and its host do, until the return from this very call takes it away
and goes on behind the call. -/

namespace Chip8.Machine

variable {m : Machine} {saved : List Int} {address : Int} {operations : List Operation}

/-! ## One step -/

theorem step_of_call {target : Address} (asked : m.upcoming? = some (.call target))
    (done : m.step.fault = none) :
    m.step.machine.calls.items = m.calls.items ++ [m.pc + 2] := by
  obtain ⟨_, opcode, _, step⟩ := of_upcoming? asked
  rw [step] at done ⊢
  cases executed : (m.fetched opcode).execute (.call target) with
  | error fault _ =>
    rw [(perform_of_error executed).2] at done
    cases done
  | ok _ m' =>
    obtain ⟨_, _, rfl⟩ := Execution.of_call executed
    rw [(perform_of_ok executed).1]
    split <;> rfl

/-- A step returns to an address and leaves the rest of the stack behind. -/
structure ReturnsTo (m : Machine) (saved : List Int) (address : Int) : Prop where
  asked : m.upcoming? = some .ret
  done : m.step.fault = none
  calls : m.step.machine.calls.items = saved
  pc : m.step.machine.pc = address
  target : isTarget address = true

theorem returnsTo_of_last (asked : m.upcoming? = some .ret)
    (last : m.calls.items.getLast? = some address) (target : isTarget address = true) :
    m.ReturnsTo m.calls.items.dropLast address := by
  obtain ⟨_, opcode, _, step⟩ := of_upcoming? asked
  have top : (m.fetched opcode).calls.items.getLast? = some address := last
  have executed : (m.fetched opcode).execute .ret = _ :=
    (Execution.run_ret_of_last top).trans (if_pos target)
  obtain ⟨machine, fault⟩ := perform_of_ok executed
  rw [if_pos target] at machine fault
  rw [← step] at machine fault
  exact {
    asked := asked
    done := fault
    calls := by rw [machine]; rfl
    pc := by rw [machine]
    target := target }

/-- A return to a place that holds no opcode fails and leaves the stack as it is. -/
theorem step_of_ret_nowhere (asked : m.upcoming? = some .ret)
    (last : m.calls.items.getLast? = some address) (nowhere : ¬ isTarget address = true) :
    m.step.machine.calls = m.calls ∧ m.step.fault = some (.badTarget address m.pc) := by
  obtain ⟨_, opcode, _, step⟩ := of_upcoming? asked
  have top : (m.fetched opcode).calls.items.getLast? = some address := last
  have executed : (m.fetched opcode).execute .ret = _ :=
    (Execution.run_ret_of_last top).trans (if_neg nowhere)
  obtain ⟨machine, fault⟩ := perform_of_error executed
  rw [step, machine, fault]
  exact ⟨rfl, rfl⟩

/-- Only the return from a call takes its address from the stack. -/
theorem pending_ret (asked : m.upcoming? = some .ret)
    (pending : saved ++ [address] <+: m.calls.items) :
    saved ++ [address] <+: m.step.machine.calls.items ∨ m.ReturnsTo saved address := by
  obtain ⟨rest, top, items⟩ : ∃ rest top, m.calls.items = rest ++ [top] := by
    refine ⟨_, _, (List.dropLast_concat_getLast fun empty => ?_).symm⟩
    simp [empty] at pending
  have last : m.calls.items.getLast? = some top := by simp [items]
  by_cases target : isTarget top = true
  · have returned := returnsTo_of_last asked last target
    rw [items, List.dropLast_concat] at returned
    rw [items, List.prefix_concat_iff] at pending
    -- The address taken is that of the call, or that of one within it.
    rcases pending with whole | inner
    · obtain ⟨rfl, rfl⟩ := List.append_singleton_inj.mp whole
      exact .inr returned
    · exact .inl (returned.calls ▸ inner)
  · rw [(step_of_ret_nowhere asked last target).1]
    exact .inl pending

theorem calls_prefix_step (h : m.upcoming? ≠ some .ret) :
    m.calls.items <+: m.step.machine.calls.items := by
  cases upcoming : m.upcoming? with
  | none =>
    rcases (frame_of_idle upcoming).calls with kept | ⟨_, other, _⟩ | ⟨other, _⟩
    · exact kept ▸ List.prefix_rfl
    · cases other
    · cases other
  | some i =>
    rcases (frame_of_upcoming upcoming).calls with kept | ⟨_, _, pushed⟩ | ⟨ret, _⟩
    · exact kept ▸ List.prefix_rfl
    · rw [pushed]
      exact List.prefix_append _ _
    · exact absurd (upcoming.trans ret) h

theorem pending_answer (pending : saved ++ [address] <+: m.calls.items) {operation : Operation}
    (on : operation.continues) :
    saved ++ [address] <+: (m.answer operation).machine.calls.items ∨
      operation = .step ∧ m.ReturnsTo saved address := by
  cases operation with
  | load | reset => cases on
  | step =>
    by_cases asked : m.upcoming? = some .ret
    · exact (pending_ret asked pending).imp_right fun returned => ⟨rfl, returned⟩
    · exact .inl (pending.trans (calls_prefix_step asked))
  | tick | setDialect => exact .inl pending
  | setKey key pressed =>
    obtain ⟨keypad, answered⟩ := m.answer_setKey key pressed
    rw [answered]
    exact .inl pending

/-! ## A history -/

/-- A call stays open as long as no step returns from it. -/
theorem pending_after (pending : saved ++ [address] <+: m.calls.items)
    (on : ∀ operation ∈ operations, operation.continues)
    (unreturned : ∀ before rest, operations = before ++ .step :: rest →
      ¬ (m.after before).ReturnsTo saved address) :
    saved ++ [address] <+: (m.after operations).calls.items := by
  induction operations using List.reverseRecOn with
  | nil => exact pending
  | append_singleton operations last ih =>
    obtain ⟨earlier, latest⟩ := List.forall_mem_append.mp on
    have before : saved ++ [address] <+: (m.after operations).calls.items := by
      refine ih earlier ?_
      rintro before rest rfl
      exact unreturned before (rest ++ [last]) (by simp)
    rw [after_concat]
    refine (pending_answer before (latest last (by simp))).resolve_right ?_
    rintro ⟨rfl, returned⟩
    exact unreturned operations [] rfl returned

/-- At no moment of a history does the stack hold exactly so many addresses. -/
def KeepsOff (m : Machine) (depth : Nat) (operations : List Operation) : Prop :=
  ∀ before, before <+: operations → (m.after before).calls.items.length ≠ depth

theorem length_ne_of_pending (pending : saved ++ [address] <+: m.calls.items) :
    m.calls.items.length ≠ saved.length := by
  have longer := pending.length_le
  rw [List.length_append, List.length_singleton] at longer
  omega

theorem pending_of_keepsOff (pending : saved ++ [address] <+: m.calls.items)
    (on : ∀ operation ∈ operations, operation.continues)
    (away : m.KeepsOff saved.length operations) :
    saved ++ [address] <+: (m.after operations).calls.items := by
  refine pending_after pending on ?_
  rintro before rest rfl returned
  have back : (m.after (before ++ [.step])).calls.items = saved := by
    rw [after_concat]
    exact returned.calls
  exact away (before ++ [.step]) ⟨rest, by simp⟩ (congrArg List.length back)

theorem pending_of_nowhere (pending : saved ++ [address] <+: m.calls.items)
    (on : ∀ operation ∈ operations, operation.continues) (nowhere : ¬ isTarget address = true) :
    saved ++ [address] <+: (m.after operations).calls.items :=
  pending_after pending on fun _ _ _ returned => nowhere returned.target

/-- How a call at `p` that found `saved` on the stack, and left the machine `m`, stands after some
operations. -/
structure CallMatch (p : Int) (saved : List Int) (m : Machine) (operations : List Operation) :
    Prop where
  /-- Until the depth is back, the return address lies on what the stack held. -/
  pending : m.KeepsOff saved.length operations →
    saved ++ [p + 2] <+: (m.after operations).calls.items
  /-- The operation that first brings the depth back is the return from this call. -/
  returns : m.KeepsOff saved.length operations → ∀ last : Operation, last.continues →
    (m.after (operations ++ [last])).calls.items.length = saved.length →
      last = .step ∧ (m.after operations).ReturnsTo saved (p + 2)
  /-- A return that finds the call on top, and a place behind it, returns from it. -/
  completes : isTarget (p + 2) = true → let m' := m.after operations
    m'.upcoming? = some .ret → m'.calls.items = saved ++ [p + 2] → m'.ReturnsTo saved (p + 2)
  /-- At the end of memory the return has nowhere to go. -/
  stuck : p = 0xFFE → let m' := m.after operations
    m'.calls.items.length ≠ saved.length ∧
      (m'.upcoming? = some .ret → m'.calls.items = saved ++ [p + 2] →
        m'.step.fault.map Fault.kind = some .memory)

/-- A call and its return match, whatever happens in between. -/
theorem call_match {target : Address} (asked : m.upcoming? = some (.call target))
    (done : m.step.fault = none) (on : ∀ operation ∈ operations, operation.continues) :
    CallMatch m.pc m.calls.items m.step.machine operations := by
  have called : m.calls.items ++ [m.pc + 2] <+: m.step.machine.calls.items :=
    step_of_call asked done ▸ List.prefix_rfl
  refine { pending := pending_of_keepsOff called on, returns := ?_, completes := ?_, stuck := ?_ }
  · intro away last continues back
    have pending := pending_of_keepsOff called on away
    rw [after_concat] at back
    refine (pending_answer pending continues).resolve_left fun still => ?_
    exact length_ne_of_pending still back
  · intro target m' ret items
    have top : m'.calls.items.getLast? = some (m.pc + 2) := by simp [items]
    have returned := returnsTo_of_last ret top target
    rw [items, List.dropLast_concat] at returned
    exact returned
  · intro last m'
    have nowhere : ¬ isTarget (m.pc + 2) = true := by
      rw [last]
      decide
    refine ⟨length_ne_of_pending (pending_of_nowhere called on nowhere), ?_⟩
    intro ret items
    have top : m'.calls.items.getLast? = some (m.pc + 2) := by simp [items]
    rw [(step_of_ret_nowhere ret top nowhere).2]
    rfl

/-- A subroutine that returns at once, with a tick in between. -/
theorem call_match_empty :
    let m := { new {} false false (.cycle []) with
      memory := (Memory.zeros 0x1000).putAll 0x200 [0x22, 0x04, 0x00, 0x00, 0x00, 0xEE] }
    m.upcoming? = some (.call 0x204) ∧ m.step.fault = none ∧
      (∀ operation ∈ [Operation.tick], operation.continues) ∧
      (m.step.machine.after [.tick]).ReturnsTo [] 0x202 := by
  intro m
  have asked : m.upcoming? = some (.call 0x204) := by decide +kernel
  have done : m.step.fault = none := by decide +kernel
  have on : ∀ operation ∈ [Operation.tick], operation.continues := by decide
  have called := call_match asked done on
  have away : m.step.machine.KeepsOff m.calls.items.length [.tick] := by
    intro before early
    rcases List.prefix_cons_iff.mp early with rfl | ⟨rest, rfl, ended⟩
    · decide +kernel
    · obtain rfl := List.prefix_nil.mp ended
      decide +kernel
  have back : (m.step.machine.after ([.tick] ++ [.step])).calls.items.length =
      m.calls.items.length := by decide +kernel
  exact ⟨asked, done, on, (called.returns away .step rfl back).2⟩

end Chip8.Machine
