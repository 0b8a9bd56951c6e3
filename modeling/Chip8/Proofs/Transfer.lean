import Chip8.Proofs.Frame

/-! Storing registers and loading them back. V0 to Vx and the bytes from I on are copied to each
other and nothing else is touched, so each of the two transfers undoes the other. -/

namespace Chip8.Machine

variable {m m' n n' : Machine} {x : Register}

/-- Where the index register stands after a transfer: where it was, behind the last byte or on it. -/
def movedIndex (m : Machine) (x : Register) : Int :=
  if m.dialect.load then
    if m.dialect.indexIncrement then (m.i + x.val) % 65536 else (m.i + x.val + 1) % 65536
  else m.i

theorem indexAfter_eq (m : Machine) (x : Register) :
    indexAfter m.dialect m.i x = m.movedIndex x := by
  unfold indexAfter movedIndex wordOf
  cases m.dialect.load with
  | false => rfl
  | true =>
    cases m.dialect.indexIncrement with
    | false => rfl
    | true => exact congrArg (· % 65536) (Int.add_zero _)

/-! ## Storing -/

/-- V0 to Vx have been stored. -/
structure Dumps (m : Machine) (x : Register) (m' : Machine) : Prop where
  size : m'.memory.size = m.memory.size
  stored : ∀ r ≤ x, m'.memory.byteAt? (m.i + r.val) = some (m.getV r)
  kept : ∀ k : Int, ¬ (m.i ≤ k ∧ k ≤ m.i + x.val) → m'.memory.byteAt? k = m.memory.byteAt? k
  registers : ∀ r, m'.getV r = m.getV r
  index : m'.i = m.movedIndex x

theorem getElem?_dumped (m : Machine) {r : Register} (h : r ≤ x) :
    (m.v.toList.take (x.val + 1))[r.val]? = some (m.getV r) := by
  have among : r.val < x.val + 1 := Nat.lt_succ_of_le h
  have register : r.val < m.v.toList.length := by
    rw [Vector.length_toList]
    exact r.isLt
  rw [List.getElem?_take_of_lt among, List.getElem?_eq_getElem register]
  exact congrArg some (Vector.getElem_toList register)

theorem exists_dump (fits : m.memory.Fits m.i (x.val + 1 : Nat)) :
    ∃ m', (Execution.dump x).run m = .ok () m' := by
  rw [← m.length_dumped x] at fits
  exact ⟨_, Execution.run_dump_of_written (Memory.writeBlock_of_fits fits)⟩

theorem dumps_of_dump (h : (Execution.dump x).run m = .ok () m') : m.Dumps x m' := by
  obtain ⟨memory, written, rfl⟩ := Execution.of_dump h
  have bytes := Memory.byteAt?_writeBlock written
  rw [m.length_dumped x] at bytes
  refine {
    size := Memory.size_writeBlock written
    stored := fun r among => ?_
    kept := fun k outside => ?_
    registers := fun _ => rfl
    index := m.indexAfter_eq x }
  · have near : r.val ≤ x.val := among
    rw [← m.getElem?_dumped among]
    refine (bytes _).trans ?_
    rw [if_pos (by omega), show (m.i + r.val - m.i).toNat = r.val by omega]
  · refine (bytes k).trans ?_
    rw [if_neg (by omega)]

theorem dumps_step (asked : m.upcoming? = some (.dump x))
    (fits : m.memory.Fits m.i (x.val + 1 : Nat)) : m.Dumps x m.step.machine := by
  obtain ⟨_, opcode, _, step⟩ := of_upcoming? asked
  obtain ⟨m', dumped⟩ := exists_dump (m := m.fetched opcode) fits
  have dumps := dumps_of_dump dumped
  rw [step, (perform_of_ok (i := .dump x) dumped).1]
  split <;> exact { dumps with }

/-! ## Loading -/

/-- V0 to Vx have been loaded. -/
structure Fills (m : Machine) (x : Register) (m' : Machine) : Prop where
  loaded : ∀ r ≤ x, m.memory.byteAt? (m.i + r.val) = some (m'.getV r)
  kept : ∀ r, x < r → m'.getV r = m.getV r
  memory : m'.memory = m.memory
  index : m'.i = m.movedIndex x

theorem get_replaceFirst_of_lt {v : Registers} {bytes : List UInt8} {r : Register}
    (h : r.val < bytes.length) : bytes[r.val]? = some ((replaceFirst v bytes).get r) := by
  have replaced : (replaceFirst v bytes).get r = bytes.getD r (v.get r) :=
    Vector.getElem_ofFn r.isLt
  rw [replaced, List.getD_eq_getElem?_getD, List.getElem?_eq_getElem h, Option.getD_some]

theorem exists_fill (fits : m.memory.Fits m.i (x.val + 1 : Nat)) :
    ∃ m', (Execution.fill x).run m = .ok () m' :=
  ⟨_, Execution.run_fill_of_read (Memory.readBlock_of_fits fits)⟩

theorem fills_of_fill (h : (Execution.fill x).run m = .ok () m') : m.Fills x m' := by
  obtain ⟨bytes, read, rfl⟩ := Execution.of_fill h
  obtain ⟨fits, slice⟩ : m.memory.Fits m.i (x.val + 1 : Nat) ∧
    bytes = m.memory.slice m.i (m.i + (x.val + 1 : Nat)) := Memory.of_readBlock read
  have length : bytes.length = x.val + 1 := Memory.length_readBlock read
  have loaded : ∀ r ≤ x,
      m.memory.byteAt? (m.i + r.val) = some ((replaceFirst m.v bytes).get r) := by
    intro r among
    have near : r.val < x.val + 1 := Nat.lt_succ_of_le among
    rw [← Memory.getElem?_slice fits near, ← slice]
    exact get_replaceFirst_of_lt (length ▸ near)
  have kept : ∀ r, x < r → (replaceFirst m.v bytes).get r = m.v.get r :=
    fun r above => get_replaceFirst (length ▸ above)
  generalize replaceFirst m.v bytes = v at loaded kept
  exact { loaded := loaded, kept := kept, memory := rfl, index := m.indexAfter_eq x }

theorem fills_step (asked : m.upcoming? = some (.fill x))
    (fits : m.memory.Fits m.i (x.val + 1 : Nat)) : m.Fills x m.step.machine := by
  obtain ⟨_, opcode, _, step⟩ := of_upcoming? asked
  obtain ⟨m', filled⟩ := exists_fill (m := m.fetched opcode) fits
  have fills := fills_of_fill filled
  rw [step, (perform_of_ok (i := .fill x) filled).1]
  split <;> exact { fills with }

/-! ## There and back -/

/-- A transfer of V0 to Vx needs no more than bytes for the first and the last of them. -/
theorem fits_of_bytes {memory : Memory} {i : Int}
    (bytes : ∀ r ≤ x, ∃ b, memory.byteAt? (i + r.val) = some b) :
    memory.Fits i (x.val + 1 : Nat) := by
  intro _
  obtain ⟨_, first⟩ := bytes .first (Nat.zero_le _)
  obtain ⟨_, last⟩ := bytes x (Nat.le_refl _)
  have low := (Memory.inside_of_byteAt? first).1
  have high := (Memory.inside_of_byteAt? last).2
  rw [show (Register.first.val : Int) = 0 from rfl] at low
  omega

/-- What has been stored comes back, whatever has become of the registers. -/
theorem Dumps.getV_of_fills (dumps : m.Dumps x m') (index : n.i = m.i)
    (same : ∀ r ≤ x, n.memory.byteAt? (m.i + r.val) = m'.memory.byteAt? (m.i + r.val))
    (fills : n.Fills x n') {r : Register} (among : r ≤ x) : n'.getV r = m.getV r := by
  have loaded := fills.loaded r among
  rw [index, same r among, dumps.stored r among] at loaded
  exact (Option.some.inj loaded).symm

/-- What has been loaded is what is stored again, so memory stays as it is. -/
theorem Fills.memory_of_dumps (fills : m.Fills x m') (index : n.i = m.i)
    (registers : ∀ r ≤ x, n.getV r = m'.getV r)
    (same : ∀ r ≤ x, n.memory.byteAt? (m.i + r.val) = m.memory.byteAt? (m.i + r.val))
    (dumps : n.Dumps x n') : n'.memory = n.memory := by
  refine Memory.eq_of_bytes dumps.size fun k => ?_
  by_cases within : m.i ≤ k ∧ k ≤ m.i + x.val
  · obtain ⟨j, rfl⟩ : ∃ j : Nat, k = m.i + j := ⟨(k - m.i).toNat, by omega⟩
    have near : j ≤ x.val := by omega
    let r : Register := ⟨j, Nat.lt_of_le_of_lt near x.isLt⟩
    have stored := dumps.stored r near
    rw [index, registers r near, ← fills.loaded r near, ← same r near] at stored
    exact stored
  · exact dumps.kept k (index ▸ within)

/-- A transfer of V0 to Vx copies them to the bytes from I on, or those bytes to them, and touches
nothing else but I. After the one, the other restores the registers, whatever has become of them, or
leaves memory as it is. -/
theorem registers_transfer (memory : m.memory.size = 0x1000)
    (inside : 0 ≤ m.i ∧ m.i + x.val ≤ 0xFFF) :
    (m.upcoming? = some (.dump x) → m.Dumps x m.step.machine ∧
      ∀ n : Machine, n.upcoming? = some (.fill x) → n.i = m.i →
        (∀ r ≤ x, n.memory.byteAt? (m.i + r.val) = m.step.machine.memory.byteAt? (m.i + r.val)) →
        n.Fills x n.step.machine ∧ ∀ r ≤ x, n.step.machine.getV r = m.getV r) ∧
    (m.upcoming? = some (.fill x) → m.Fills x m.step.machine ∧
      ∀ n : Machine, n.upcoming? = some (.dump x) → n.i = m.i →
        (∀ r ≤ x, n.getV r = m.step.machine.getV r) →
        (∀ r ≤ x, n.memory.byteAt? (m.i + r.val) = m.memory.byteAt? (m.i + r.val)) →
        n.Dumps x n.step.machine ∧ n.step.machine.memory = n.memory) := by
  have fits : m.memory.Fits m.i (x.val + 1 : Nat) := fun _ => by omega
  constructor
  · intro asked
    have dumps := dumps_step asked fits
    refine ⟨dumps, fun n asked' index same => ?_⟩
    have fits' : n.memory.Fits n.i (x.val + 1 : Nat) := by
      rw [index]
      exact fits_of_bytes fun r among => ⟨_, (same r among).trans (dumps.stored r among)⟩
    have fills := fills_step asked' fits'
    exact ⟨fills, fun r among => dumps.getV_of_fills index same fills among⟩
  · intro asked
    have fills := fills_step asked fits
    refine ⟨fills, fun n asked' index registers same => ?_⟩
    have fits' : n.memory.Fits n.i (x.val + 1 : Nat) := by
      rw [index]
      exact fits_of_bytes fun r among => ⟨_, (same r among).trans (fills.loaded r among)⟩
    have dumps := dumps_step asked' fits'
    exact ⟨dumps, fills.memory_of_dumps index registers same dumps⟩

/-- All registers are stored in the last bytes of memory, lost, and loaded back. -/
theorem registers_transfer_top :
    let m := { new {} false false (.cycle []) with
      v := Vector.replicate 16 9
      i := 0xFF0
      memory := (Memory.zeros 0x1000).putAll 0x200 [0xFF, 0x55, 0xFF, 0x65] }
    let n := { m.step.machine with
      v := Vector.replicate 16 0
      i := 0xFF0
      pc := 0x202
      phase := .running }
    m.memory.size = 0x1000 ∧ (0 ≤ m.i ∧ m.i + (Register.flag.val : Int) ≤ 0xFFF) ∧
      m.upcoming? = some (.dump .flag) ∧ n.upcoming? = some (.fill .flag) ∧
      m.step.machine.i = 0x1000 ∧ n.step.machine.getV .flag = 9 := by
  intro m n
  have memory : m.memory.size = 0x1000 := by decide
  have inside : 0 ≤ m.i ∧ m.i + (Register.flag.val : Int) ≤ 0xFFF := by decide
  have asked : m.upcoming? = some (.dump .flag) := by decide +kernel
  obtain ⟨dumps, restores⟩ := (registers_transfer (x := .flag) memory inside).1 asked
  have same : n.memory = m.step.machine.memory := by dsimp only [n]
  have kept := fun k => congrArg (Memory.byteAt? · k) same
  have first : m.memory.byteAt? 0x202 = some 0xFF := by decide +kernel
  have second : m.memory.byteAt? 0x203 = some 0x65 := by decide +kernel
  have asked' : n.upcoming? = some (.fill .flag) :=
    upcoming?_of_bytes rfl ((kept 0x202).trans ((dumps.kept 0x202 (by decide)).trans first))
      ((kept 0x203).trans ((dumps.kept 0x203 (by decide)).trans second))
  have restored := (restores n asked' rfl fun r _ => kept _).2 .flag (Nat.le_refl _)
  have index : m.movedIndex .flag = 0x1000 := by decide
  exact ⟨memory, inside, asked, asked', dumps.index.trans index, restored⟩

end Chip8.Machine
