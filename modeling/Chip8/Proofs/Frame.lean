import Chip8.Proofs.Step

/-! Footprints. For every instruction there are the places that it may change, and a step changes
nothing else, whether it fails or not. What an instruction does to the timers, to the latch and to
the random bytes is exact: those instructions never fail. -/

namespace Chip8

/-! ## What an instruction may change -/

/-- One of the two timers. -/
inductive Timer where
  | delay
  | sound
  deriving DecidableEq, Repr

def Timers.value (t : Timers) : Timer → UInt8
  | .delay => t.delay
  | .sound => t.sound

/-- Whether an operation writes the flag besides its result. -/
def AluOp.writesFlag (d : Dialect) : AluOp → Bool
  | copy => false
  | or | and | xor => d.logic
  | add | sub | shiftRight | subFrom | shiftLeft => true

theorem AluOp.isSome_compute (d : Dialect) (op : AluOp) (a b : UInt8) :
    (op.compute d a b).2.isSome = op.writesFlag d := by
  cases op <;> cases logic : d.logic <;> simp [compute, writesFlag, logic]

namespace Instruction

def writes (d : Dialect) (r : Register) : Instruction → Bool
  | setByte x _ | addByte x _ | random x _ | readDelay x => r == x
  | alu op x _ => r == x || op.writesFlag d && r == .flag
  | draw _ _ _ => r == .flag
  | addIndex _ => d.indexOverflow && r == .flag
  | fill x => r ≤ x
  | _ => false

def writesIndex : Instruction → Bool
  | setIndex _ | addIndex _ | glyph _ | dump _ | fill _ => true
  | _ => false

/-- How many bytes of memory from I on are written. -/
def stores : Instruction → Nat
  | decimal _ => 3
  | dump x => x.val + 1
  | _ => 0

/-- A change to the resolution that is on already leaves the screen alone. -/
def draws (lowRes : Bool) : Instruction → Bool
  | clear | draw _ _ _ => true
  | lowResolution => !lowRes
  | highResolution => lowRes
  | _ => false

/-- The register whose value goes into a timer. -/
def loads? : Timer → Instruction → Option Register
  | .delay, setDelay x | .sound, setSound x => some x
  | _, _ => none

end Instruction

namespace Machine

open Execution

/-- The value that an instruction loads into a timer. -/
def loaded? (m : Machine) (t : Timer) (i : Instruction) : Option UInt8 := (i.loads? t).map m.getV

/-- How a machine may differ from the one before a step, by the instruction that was before it.
Fields that are not given say that nothing changed. -/
structure Frame (m : Machine) (i? : Option Instruction) (m' : Machine) : Prop where
  size : m'.memory.size = m.memory.size := by rfl
  memory : ∀ address, m'.memory.byteAt? address = m.memory.byteAt? address ∨
    ∃ i ∈ i?, m.i ≤ address ∧ address < m.i + i.stores := by exact fun _ => .inl rfl
  display : m'.display = m.display ∨ ∃ i ∈ i?, i.draws m.lowRes := by exact .inl rfl
  calls : m'.calls = m.calls ∨
    (∃ target, i? = some (.call target) ∧
      m'.calls = { m.calls with items := m.calls.items ++ [m.pc + 2] }) ∨
    i? = some .ret ∧ m.calls.items ≠ [] ∧
      m'.calls = { m.calls with items := m.calls.items.dropLast } := by exact .inl rfl
  timers : ∀ t, m'.timers.value t = (i?.bind (m.loaded? t)).getD (m.timers.value t) := by
    exact fun t => by cases t <;> rfl
  down : m'.keypad.down = m.keypad.down := by rfl
  latch : m'.keypad.latch = match i? with
    | some (.awaitKey _) => none
    | _ => m.keypad.latch := by rfl
  index : m'.i = m.i ∨ ∃ i ∈ i?, i.writesIndex := by exact .inl rfl
  random : m'.random = match i? with
    | some (.random _ _) => m.random.next.2
    | _ => m.random := by rfl
  registers : ∀ r, m'.getV r = m.getV r ∨ (∃ i ∈ i?, i.writes m.dialect r) ∨
    m.phase = .awaitingKey ∧ m'.phase = .running ∧ r = m.keyRegister := by exact fun _ => .inl rfl
  dialect : m'.dialect = m.dialect := by rfl

variable {m m' : Machine}

/-! ## Registers -/

theorem getV_setV (m : Machine) (x r : Register) (b : UInt8) :
    (m.setV x b).getV r = if x = r then b else m.getV r := by
  simp only [Fin.ext_iff]
  exact Vector.getElem_set x.isLt r.isLt

theorem getV_setV_of_ne (m : Machine) {x r : Register} (b : UInt8) (h : r ≠ x) :
    (m.setV x b).getV r = m.getV r := by
  rw [getV_setV, if_neg (Ne.symm h)]

theorem getV_setFlag_of_ne (m : Machine) {r : Register} (on : Bool) (h : r ≠ .flag) :
    (m.setFlag on).getV r = m.getV r := m.getV_setV_of_ne _ h

theorem getV_runAlu_of_writes (m : Machine) (op : AluOp) (x y : Register) {r : Register}
    (h : ¬ (Instruction.alu op x y).writes m.dialect r) : (m.runAlu op x y).getV r = m.getV r := by
  simp only [Instruction.writes, Bool.or_eq_true, Bool.and_eq_true, beq_iff_eq, not_or] at h
  obtain ⟨other, unflagged⟩ := h
  rw [← AluOp.isSome_compute m.dialect op (m.getV x) (m.getV y)] at unflagged
  unfold runAlu
  split
  · exact m.getV_setV_of_ne _ other
  · next computed =>
    rw [computed] at unflagged
    have plain : r ≠ .flag := fun flag => unflagged ⟨rfl, flag⟩
    split
    · rw [getV_setV_of_ne _ _ other, getV_setFlag_of_ne _ _ plain]
    · rw [getV_setFlag_of_ne _ _ plain, getV_setV_of_ne _ _ other]

theorem getV_addIndex_of_writes (m : Machine) (x : Register) {r : Register}
    (h : ¬ (Instruction.addIndex x).writes m.dialect r) : (m.addIndex x).getV r = m.getV r := by
  simp only [Instruction.writes, Bool.and_eq_true, beq_iff_eq] at h
  simp only [addIndex]
  split
  · next overflow => exact getV_setFlag_of_ne _ _ fun flag => h ⟨overflow, flag⟩
  · rfl

theorem get_replaceFirst {v : Registers} {bytes : List UInt8} {r : Register}
    (h : bytes.length ≤ r.val) : (replaceFirst v bytes).get r = v.get r := by
  have beyond : (replaceFirst v bytes).get r = bytes.getD r (v.get r) := Vector.getElem_ofFn r.isLt
  rw [beyond, List.getD_eq_getElem?_getD, List.getElem?_eq_none h, Option.getD_none]

/-! ## Instructions -/

theorem lowByte_toNat (b : UInt8) : lowByte b.toNat = b := by
  have small := b.toNat_lt
  rw [lowByte, Int.emod_eq_of_lt (by omega) (by omega), Int.toNat_natCast, UInt8.ofNat_toNat]

theorem value_setDelay (m : Machine) (x : Register) (t : Timer) :
    (m.timers.setDelay (m.getV x).toNat).value t =
      (m.loaded? t (.setDelay x)).getD (m.timers.value t) := by
  cases t with
  | delay => exact lowByte_toNat _
  | sound => rfl

theorem value_setSound (m : Machine) (x : Register) (t : Timer) :
    (m.timers.setSound (m.getV x).toNat).value t =
      (m.loaded? t (.setSound x)).getD (m.timers.value t) := by
  cases t with
  | delay => rfl
  | sound => exact lowByte_toNat _

/-- Registers that only an instruction's own writes have changed. -/
theorem registers_of_kept {i : Instruction}
    (kept : ∀ r, ¬ i.writes m.dialect r → m'.getV r = m.getV r) (r : Register) :
    m'.getV r = m.getV r ∨ (∃ j ∈ some i, j.writes m.dialect r) ∨
      m.phase = .awaitingKey ∧ m'.phase = .running ∧ r = m.keyRegister := by
  by_cases written : i.writes m.dialect r = true
  · exact .inr (.inl ⟨i, rfl, written⟩)
  · exact .inl (kept r written)

theorem memory_of_stored {i : Instruction} {memory : Memory} {block : List UInt8}
    (length : block.length = i.stores) (h : m.memory.writeBlock m.i block = .ok memory)
    (address : Int) : memory.byteAt? address = m.memory.byteAt? address ∨
      ∃ j ∈ some i, m.i ≤ address ∧ address < m.i + j.stores := by
  rw [Memory.byteAt?_writeBlock h, length]
  split
  · next inside => exact .inr ⟨i, rfl, inside⟩
  · exact .inl rfl

/-- An instruction that is refused has changed the screen at most, so none of those that change a timer,
the latch or the random bytes is ever refused. -/
theorem frame_of_refused {i : Instruction} {fault : Fault} (h : m.execute i = .error fault m') :
    m.Frame (some i) m' := by
  rcases of_execute_error h with rfl | ⟨_, _, _, _, rfl, _, rfl⟩
  · cases i with
    | ret | jump | call | jumpOffset | draw | decimal | dump | fill => exact {}
    | _ => cases h
  · exact { display := .inr ⟨_, rfl, rfl⟩ }

theorem frame_of_execute (next : m.next = m.pc + 2) {i : Instruction} (h : m.execute i = .ok () m') :
    m.Frame (some i) m' := by
  cases i with
  | clear =>
    cases h
    exact { display := .inr ⟨_, rfl, rfl⟩ }
  | ret =>
    obtain ⟨address, top, _, rfl⟩ := of_ret h
    have calls : m.calls.items ≠ [] := List.ne_nil_of_mem (List.mem_of_getLast? top)
    exact { calls := .inr (.inr ⟨rfl, calls, rfl⟩) }
  | lowResolution | highResolution =>
    obtain rfl := of_modify h
    unfold setResolution
    split
    · exact {}
    · next changed =>
      refine { display := .inr ⟨_, rfl, ?_⟩ }
      cases low : m.lowRes <;> first | rfl | exact absurd low changed
  | jump target | jumpOffset target =>
    obtain ⟨_, rfl⟩ := of_jump h
    exact {}
  | call target =>
    obtain ⟨_, _, rfl⟩ := of_call h
    exact { calls := .inr (.inl ⟨target, rfl, by rw [next]⟩) }
  | skipIfByte | skipUnlessByte | skipIfEqual | skipUnlessEqual | skipIfKey | skipUnlessKey =>
    obtain rfl := of_modify h
    unfold skipIf
    split <;> exact {}
  | setByte x | addByte x | readDelay x | random x =>
    cases h
    have other : ∀ r, ¬ (r == x) = true → r ≠ x := fun r h same => h (beq_iff_eq.mpr same)
    exact { registers := registers_of_kept fun r h => getV_setV_of_ne _ _ (other r h) }
  | alu op x y =>
    obtain rfl := of_modify h
    have kept := fun r => m.getV_runAlu_of_writes (r := r) op x y
    obtain ⟨v, alu⟩ := m.runAlu_eq op x y
    rw [alu] at kept ⊢
    exact { registers := registers_of_kept kept }
  | setIndex target | glyph =>
    cases h
    exact { index := .inr ⟨_, rfl, rfl⟩ }
  | setDelay x =>
    cases h
    exact { timers := m.value_setDelay x }
  | setSound x =>
    cases h
    exact { timers := m.value_setSound x }
  | awaitKey x =>
    cases h
    exact {}
  | draw x y height =>
    obtain ⟨d, hit, rfl⟩ := of_draw h
    exact {
      display := .inr ⟨_, rfl, rfl⟩
      registers := registers_of_kept fun r h =>
        getV_setFlag_of_ne _ _ fun flag => h (beq_iff_eq.mpr flag) }
  | addIndex x =>
    obtain rfl := of_modify h
    have kept := fun r => m.getV_addIndex_of_writes (r := r) x
    obtain ⟨v, added⟩ := m.addIndex_eq x
    rw [added] at kept ⊢
    exact { registers := registers_of_kept kept, index := .inr ⟨_, rfl, rfl⟩ }
  | decimal x =>
    obtain ⟨memory, stored, rfl⟩ := of_storeDecimal h
    exact { size := Memory.size_writeBlock stored, memory := memory_of_stored rfl stored }
  | dump x =>
    obtain ⟨memory, stored, rfl⟩ := of_dump h
    exact {
      size := Memory.size_writeBlock stored
      memory := memory_of_stored (m.length_dumped x) stored
      index := .inr ⟨_, rfl, rfl⟩ }
  | fill x =>
    obtain ⟨bytes, read, rfl⟩ := of_fill h
    have length : bytes.length = x.val + 1 := Memory.length_readBlock read
    have kept : ∀ r, ¬ decide (r ≤ x) → (replaceFirst m.v bytes).get r = m.v.get r := by
      intro r above
      rw [decide_eq_true_iff, Fin.le_def] at above
      exact get_replaceFirst (by omega)
    generalize replaceFirst m.v bytes = v at kept
    exact { registers := registers_of_kept kept, index := .inr ⟨_, rfl, rfl⟩ }

/-! ## Steps -/

/-- Without an instruction before it a step changes at most the register that awaits a key. -/
theorem frame_of_idle (h : m.upcoming? = none) : m.Frame none m.step.machine := by
  have stepped := m.stepped
  generalize m.step.machine = m', m.step.fault = fault at stepped ⊢
  cases stepped with
  | waiting | stuck | unfetched | unknown => exact {}
  | resolved phase =>
    refine { registers := fun r => ?_ }
    by_cases awaited : r = m.keyRegister
    · exact .inr (.inr ⟨phase, rfl, awaited⟩)
    · exact .inl (m.getV_setV_of_ne _ awaited)
  | refused phase fetched decoded | stranded phase fetched decoded
  | completed phase fetched decoded =>
    rw [upcoming?_of_fetched phase fetched, decoded] at h
    cases h

theorem frame_of_upcoming {i : Instruction} (h : m.upcoming? = some i) :
    m.Frame (some i) m.step.machine := by
  obtain ⟨_, opcode, _, step⟩ := of_upcoming? h
  rw [step]
  cases executed : (m.fetched opcode).execute i with
  | error fault m' =>
    have frame : (m.fetched opcode).Frame (some i) m' := frame_of_refused executed
    rw [(perform_of_error executed).1]
    exact { frame with }
  | ok _ m' =>
    have frame : (m.fetched opcode).Frame (some i) m' := frame_of_execute rfl executed
    rw [(perform_of_ok executed).1]
    split <;> exact { frame with }

/-- Whatever a step does, it keeps to the footprint of the instruction before it. -/
theorem step_frame (m : Machine) : m.Frame m.upcoming? m.step.machine := by
  cases h : m.upcoming? with
  | none => exact frame_of_idle h
  | some i => exact frame_of_upcoming h

end Machine

end Chip8
