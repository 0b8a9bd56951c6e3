import Chip8.Proofs.Frame
import Chip8.Proofs.History

/-! Back to power-on. A reset sets each part of a machine back by itself, and what it leaves alone no
history has ever changed: the size of memory, the room for calls, the configuration beyond the
dialect, and the row of random bytes. So nothing of a program outlives it. -/

namespace Chip8

namespace Memory

/-- Zeroing every cell leaves the memory that is made of zeros. -/
theorem zeroFrom_zero (m : Memory) : m.zeroFrom 0 = zeros m.size := by
  have cells : m.cells.mapIdx (fun k b => if k < 0 then b else 0) =
      Array.replicate m.size.toNat 0 := by
    refine Array.ext ?_ fun k _ _ => ?_
    · rw [Array.size_mapIdx, Array.size_replicate, m.cells_size]
    · simp only [Array.getElem_mapIdx, Array.getElem_replicate, Nat.not_lt_zero, if_false]
  simp only [zeroFrom, zeros, cells]

end Memory

theorem Keypad.releaseAll_eq (k : Keypad) : k.releaseAll = released := by
  have down : k.down.map (fun _ => false) = Vector.replicate _ false :=
    Vector.ext fun key inside => by rw [Vector.getElem_map, Vector.getElem_replicate]
  rw [releaseAll, down]
  rfl

namespace Machine

/-- Two machines are of one make. -/
structure SameMake (m m' : Machine) : Prop where
  memory : m'.memory.size = m.memory.size
  limit : m'.calls.limit = m.calls.limit
  hires : m'.hires = m.hires
  traced : m'.traced = m.traced
  /-- The random bytes are the same, however many of them have been used. -/
  random : m'.random.byte = m.random.byte

variable {m m' m'' : Machine}

theorem SameMake.trans (h : m.SameMake m') (h' : m'.SameMake m'') : m.SameMake m'' where
  memory := h'.memory.trans h.memory
  limit := h'.limit.trans h.limit
  hires := h'.hires.trans h.hires
  traced := h'.traced.trans h.traced
  random := h'.random.trans h.random

theorem traced_step (m : Machine) : m.step.machine.traced = m.traced := by
  have stepped := m.stepped
  generalize m.step.machine = m', m.step.fault = fault at stepped ⊢
  cases stepped with
  | stranded _ _ _ executed | completed _ _ _ executed =>
    exact (samePlace_of_execute executed).traced
  | refused _ _ _ failed => exact (samePlace_of_execute_error failed).traced
  | _ => rfl

theorem sameMake_step (m : Machine) : m.SameMake m.step.machine where
  memory := m.step_frame.size
  limit := by
    rcases m.step_frame.calls with kept | ⟨_, _, called⟩ | ⟨_, _, returned⟩
    · rw [kept]
    · rw [called]
    · rw [returned]
  hires := m.hires_step
  traced := m.traced_step
  random := by
    rw [m.step_frame.random]
    split <;> rfl

/-- No operation makes another machine of it. -/
theorem sameMake_answer (m : Machine) (operation : Operation) :
    m.SameMake (m.answer operation).machine := by
  cases operation with
  | load program address =>
    rcases m.answer_load program address with kept | loaded
    · rw [kept]
      constructor <;> rfl
    · obtain ⟨memory, written, answered⟩ := of_loadProgram loaded
      rw [answered]
      exact ⟨Memory.size_load written, rfl, rfl, rfl, rfl⟩
  | reset start => exact ⟨Memory.size_putAll _ _ _, rfl, rfl, rfl, rfl⟩
  | step => exact m.sameMake_step
  | tick | setDialect => constructor <;> rfl
  | setKey key pressed =>
    obtain ⟨keypad, answered⟩ := m.answer_setKey key pressed
    rw [answered]
    constructor <;> rfl

theorem sameMake_after (m : Machine) (operations : List Operation) :
    m.SameMake (m.after operations) := by
  induction operations generalizing m with
  | nil => constructor <;> rfl
  | cons operation rest ih => exact (m.sameMake_answer operation).trans (ih _)

/-- A reset leaves nothing of a machine but its configuration and its place in the random bytes. -/
theorem reset_eq (memory : m.memory.size = Layout.memorySize)
    (limit : m.calls.limit = Layout.callDepth) (start : Int) :
    m.reset start = new m.dialect m.hires m.traced m.random start := by
  have zeroed : (m.memory.zeroFrom 0).putAll Layout.fontAddress systemFont = bareMemory := by
    rw [Memory.zeroFrom_zero, memory]
    rfl
  unfold reset
  rw [zeroed, m.keypad.releaseAll_eq, clear_eq limit]
  rfl

/-- Whatever has been done to a machine, a reset makes it a new one that starts where it is told and
goes on with the random bytes; from there on both find, leave and answer the same. -/
theorem reset_eq_new (dialect : Dialect) (hires traced : Bool) (random : ByteSource)
    (operations : List Operation) (start : Int) :
    let m := (new dialect hires traced random).after operations
    let fresh := { new m.dialect hires traced { random with used := m.random.used } with
      pc := start
      origin := start
      next := start }
    m.reset start = fresh ∧
      ∀ later operation, ((m.reset start).after later).answer operation =
        (fresh.after later).answer operation := by
  intro m fresh
  have make : (new dialect hires traced random).SameMake m := sameMake_after _ operations
  have source : m.random = { random with used := m.random.used } := by
    rw [← show m.random.byte = random.byte from make.random]
  have reset : m.reset start = fresh := by
    rw [reset_eq make.memory make.limit, make.hires, make.traced, source]
    rfl
  exact ⟨reset, fun later operation => by rw [reset]⟩

end Machine

end Chip8
