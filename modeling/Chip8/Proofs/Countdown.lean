import Mathlib.Data.List.Induction
import Chip8.Proofs.Frame
import Chip8.Proofs.History

/-! The timers over a history. A timer shows the value that it was given last less the ticks since
then: of all instructions only the one that loads it has a part in that, and running, waiting and
failing make no difference. -/

namespace Chip8

def Operation.isTick : Operation → Bool
  | tick => true
  | _ => false

namespace Timers

theorem value_tick (ts : Timers) (t : Timer) : ts.tick.value t = countDown (ts.value t) := by
  cases t <;> rfl

theorem toNat_countDown (b : UInt8) : (countDown b).toNat = b.toNat - 1 := by
  unfold countDown
  split
  · next zero => rw [zero]; rfl
  · next positive =>
    have one : 1 ≤ b := by
      rw [UInt8.le_iff_toNat_le, UInt8.toNat_one]
      exact Nat.pos_of_ne_zero fun zero => positive (UInt8.toNat_inj.mp zero)
    exact UInt8.toNat_sub_of_le b 1 one

theorem soundActive_iff (ts : Timers) : ts.soundActive ↔ 0 < (ts.value .sound).toNat := by
  rw [soundActive, bne_iff_ne, Nat.pos_iff_ne_zero, ne_eq, ne_eq, ← UInt8.toNat_inj]
  rfl

end Timers

namespace Machine

/-- The value that a timer is given at a moment of a history. -/
def loadedAt? (t : Timer) : Machine × Operation → Option UInt8
  | (m, .step) => m.upcoming?.bind (m.loaded? t)
  | _ => none

/-- The value that a timer was given last; zero if it was given none. -/
def lastLoad (t : Timer) (past : List (Machine × Operation)) : UInt8 :=
  (past.findSome? (loadedAt? t)).getD 0

def ticksSince (t : Timer) (past : List (Machine × Operation)) : Nat :=
  (past.takeWhile fun e => (loadedAt? t e).isNone).countP (·.2.isTick)

/-! ## One operation -/

theorem value_step (m : Machine) (t : Timer) : m.step.machine.timers.value t =
    (m.upcoming?.bind (m.loaded? t)).getD (m.timers.value t) := by
  cases h : m.upcoming? with
  | none => exact (frame_of_idle h).timers t
  | some i => exact (frame_of_upcoming h).timers t

theorem value_answer (m : Machine) {operation : Operation} (on : operation.continues) (t : Timer) :
    ((m.answer operation).machine.timers.value t).toNat = match loadedAt? t (m, operation) with
      | some b => b.toNat
      | none => (m.timers.value t).toNat - if operation.isTick then 1 else 0 := by
  cases operation with
  | load | reset => cases on
  | step =>
    have stepped := m.value_step t
    simp only [answer, loadedAt?, stepped]
    cases m.upcoming?.bind (m.loaded? t) <;> rfl
  | tick => exact (congrArg UInt8.toNat (m.timers.value_tick t)).trans (Timers.toNat_countDown _)
  | setKey key pressed =>
    obtain ⟨keypad, answered⟩ := m.answer_setKey key pressed
    rw [answered]
    rfl
  | setDialect => rfl

/-! ## A history -/

theorem value_after (m : Machine) {operations : List Operation}
    (on : ∀ operation ∈ operations, operation.continues) (t : Timer) :
    ((m.after operations).timers.value t).toNat =
      (((m.past operations).findSome? (loadedAt? t)).getD (m.timers.value t)).toNat -
        ticksSince t (m.past operations) := by
  -- From the end: the operation added is the latest, and what came before keeps its machines.
  induction operations using List.reverseRecOn with
  | nil => rfl
  | append_singleton operations last ih =>
    obtain ⟨earlier, latest⟩ := List.forall_mem_append.mp on
    have now := (m.after operations).value_answer (latest last (by simp)) t
    rw [after_concat, past_concat, now]
    cases loaded : loadedAt? t (m.after operations, last) with
    | some b => simp [ticksSince, loaded]
    | none =>
      simp only [ticksSince, List.findSome?_cons, List.takeWhile_cons, List.countP_cons, loaded,
        Option.isNone_none, if_true]
      have before := ih earlier
      simp only [ticksSince] at before
      omega

/-- A program that has been started, or a reset, finds the processor at its start and both timers at
rest. -/
theorem of_started {m : Machine} {start : Operation} (begins : start.continues = false)
    (accepted : (m.answer start).failure = none) :
    (∃ address, (m.answer start).machine.toProcessor = .startingAt address) ∧
      (m.answer start).machine.timers = {} := by
  cases start with
  | load program address =>
    cases loaded : m.loadProgram program address with
    | error fault => simp [answer, loaded] at accepted
    | ok m' =>
      obtain ⟨memory, _, rfl⟩ := of_loadProgram loaded
      simp only [answer, loaded, and_true]
      exact ⟨address, rfl⟩
  | reset address => exact ⟨⟨address, rfl⟩, rfl⟩
  | step | tick | setKey | setDialect => cases begins

/-- Since the start of a program a timer shows what it was given last less the ticks since. -/
theorem timers_after (m : Machine) {start : Operation} (begins : start.continues = false)
    (accepted : (m.answer start).failure = none) {operations : List Operation}
    (on : ∀ operation ∈ operations, operation.continues) :
    let m₀ := (m.answer start).machine
    let past := m₀.past operations
    (∀ t, ((m₀.after operations).timers.value t).toNat =
      (lastLoad t past).toNat - ticksSince t past) ∧
    ((m₀.after operations).timers.soundActive ↔
      0 < (lastLoad .sound past).toNat - ticksSince .sound past) := by
  intro m₀ past
  have rest : m₀.timers = {} := (of_started begins accepted).2
  have shown : ∀ t, ((m₀.after operations).timers.value t).toNat =
      (lastLoad t past).toNat - ticksSince t past := by
    intro t
    have zero : m₀.timers.value t = 0 := by
      rw [rest]
      cases t <;> rfl
    rw [value_after m₀ on t, zero]
    rfl
  refine ⟨shown, ?_⟩
  rw [← shown .sound]
  exact Timers.soundActive_iff _

/-- A delay of three that ticks twice. -/
theorem timers_after_two :
    let m := new {} false false (.cycle [])
    let program : Operation := .load [0x60, 0x03, 0xF0, 0x15] 0x200
    let operations : List Operation := [.step, .step, .tick, .tick]
    (m.answer program).failure = none ∧ (∀ operation ∈ operations, operation.continues) ∧
      ((m.answer program).machine.after operations).timers.delay.toNat = 3 - 2 := by
  intro m program operations
  have on : ∀ operation ∈ operations, operation.continues := by decide
  have accepted : (m.answer program).failure = none := rfl
  have shown := (timers_after m (by rfl) accepted on).1 .delay
  obtain ⟨m₀, loaded⟩ : ∃ m₀, m.loadProgram [0x60, 0x03, 0xF0, 0x15] 0x200 = .ok m₀ := ⟨_, rfl⟩
  have begun : (m.answer program).machine = m₀ := by simp only [program, answer, loaded]
  rw [begun] at shown ⊢
  obtain ⟨memory, written, started⟩ := of_loadProgram loaded
  have bytes := Memory.byteAt?_writeBlock (Memory.of_load written)
  have first : m₀.fetch = .ok 0x6003 := by
    rw [started]
    exact Memory.read16_of_bytes (bytes 0x200) (bytes 0x201)
  have one : m₀.step.machine = { (m₀.fetched 0x6003).setV 0 3 with pc := 0x202, executed := 1 } := by
    rw [step_of_decoded (by rw [started]; rfl) first rfl, started]
    exact (perform_of_ok rfl).1.trans (if_pos rfl)
  have second : m₀.step.machine.fetch = .ok 0xF015 := by
    rw [one, started]
    exact Memory.read16_of_bytes (bytes 0x202) (bytes 0x203)
  have load : loadedAt? .delay (m₀.step.machine, .step) = some 3 := by
    have upcoming : m₀.step.machine.upcoming? = some (.setDelay 0) :=
      upcoming?_of_fetched (by rw [one, started]; rfl) second
    simp only [loadedAt?, upcoming]
    rw [one, started]
    rfl
  have idle : ∀ met, loadedAt? .delay (met, .tick) = none := fun _ => rfl
  have last : lastLoad .delay (m₀.past operations) = 3 := by
    simp [lastLoad, operations, past, answer, load, idle]
  have ticks : ticksSince .delay (m₀.past operations) = 2 := by
    simp [ticksSince, operations, past, answer, load, idle, Operation.isTick]
  rw [last, ticks] at shown
  exact ⟨accepted, on, shown⟩

end Machine

end Chip8
