import Chip8.Proofs.Invariant

/-! Steps that fail. A step fails for what its instruction demands of the stack, of its target or of
memory, or because nothing follows it. The demands are checked before the first change, so such a
step changes nothing; only an instruction at the very end of memory is executed and fails then. -/

namespace Chip8

/-- The kind of fault that a step ends with, if it does. -/
def Outcome.kind (o : Outcome) : Option Fault.Kind := o.fault.map Fault.kind

namespace Machine

/-- What makes a step of a running machine fail, and the kind of the fault. -/
inductive FaultsWith (m : Machine) : Instruction → Fault.Kind → Prop
  | returnsNowhere (empty : m.calls.items = []) : FaultsWith m .ret .callsEmpty
  | returnsBeyond {address : Int} (top : m.calls.items.getLast? = some address)
      (beyond : 0xFFE < address) : FaultsWith m .ret .memory
  | jumpsOdd {target : Address} (odd : target.val % 2 = 1) : FaultsWith m (.jump target) .memory
  | callsOdd {target : Address} (odd : target.val % 2 = 1) : FaultsWith m (.call target) .memory
  | callsDeep {target : Address} (even : target.val % 2 = 0) (full : m.calls.items.length = 16) :
      FaultsWith m (.call target) .callsFull
  | jumpsAside {target : Address} {sum : Nat}
      (offset : sum = (m.getV (jumpRegister m.dialect target)).toNat + target.val)
      (astray : sum % 2 = 1 ∨ 0xFFE < sum) : FaultsWith m (.jumpOffset target) .memory
  | spansBeyond {i : Instruction} (needs : 0 < m.span i) (beyond : 0x1000 < m.i + m.span i) :
      FaultsWith m i .memory
  | endsMemory {i : Instruction} (falls : i.fallsThrough = true)
      (beyond : 0xFFE < m.pc + if m.skips i then 4 else 2) : FaultsWith m i .memory

variable {m : Machine}

/-! ## Places to go on -/

theorem isTarget_address (target : Address) :
    isTarget target.val = true ↔ target.val % 2 = 0 := by
  have := target.isLt
  rw [isTarget_iff]
  unfold Layout.highestPC
  omega

theorem isTarget_offset (a b : Nat) :
    isTarget (a + b) = true ↔ ¬ ((a + b) % 2 = 1 ∨ 0xFFE < a + b) := by
  rw [isTarget_iff]
  unfold Layout.highestPC
  omega

/-- Two or four bytes on there is a place again, if that is not beyond memory. -/
theorem WellFormed.isTarget_successor (hm : m.WellFormed) (skip : Bool) :
    isTarget (m.pc + 2 + if skip then 2 else 0) = true ↔ ¬ 0xFFE < m.pc + if skip then 4 else 2 := by
  have here := isTarget_iff.mp hm.pc
  unfold Layout.highestPC at here
  rw [isTarget_iff]
  unfold Layout.highestPC
  cases skip with
  | true =>
    rw [if_pos rfl, if_pos rfl]
    omega
  | false =>
    rw [if_neg Bool.false_ne_true, if_neg Bool.false_ne_true]
    omega

theorem WellFormed.isTarget_return (hm : m.WellFormed) {address : Int}
    (top : m.calls.items.getLast? = some address) : isTarget address = true ↔ ¬ 0xFFE < address := by
  have proper := hm.calls.returns address (List.mem_of_getLast? top)
  rw [isTarget_iff]
  unfold Layout.highestPC
  omega

theorem WellFormed.isFull_iff (hm : m.WellFormed) :
    m.calls.isFull = true ↔ m.calls.items.length = 16 := by
  have depth := hm.calls.depth
  unfold CallStack.isFull
  rw [hm.calls.limit, decide_eq_true_iff]
  unfold Layout.callDepth at depth ⊢
  omega

theorem WellFormed.not_fits_iff (hm : m.WellFormed) (size : Nat) :
    ¬ m.memory.Fits m.i size ↔ 0 < size ∧ 0x1000 < m.i + size := by
  have index := hm.index
  have memory := hm.memory
  unfold Memory.Fits
  unfold Layout.memorySize at memory
  omega

/-! ## Executing and going on -/

theorem kind_of_error {m' : Machine} {i : Instruction} {fault : Fault}
    (h : m.execute i = .error fault m') :
    (m.perform i).kind = some fault.kind := by
  rw [Outcome.kind, (perform_of_error h).2]
  rfl

theorem kind_of_ok {m' : Machine} {i : Instruction} (h : m.execute i = .ok () m') :
    (m.perform i).kind = if isTarget m'.next then none else some .memory := by
  rw [Outcome.kind, (perform_of_ok h).2]
  split <;> rfl

/-- An instruction that says itself where to go on is over when it has been executed. -/
theorem WellFormed.kind_of_control (hm : m.WellFormed) {m' : Machine} {i : Instruction}
    (control : i.fallsThrough = false) (h : m.execute i = .ok () m') : (m.perform i).kind = none := by
  rw [kind_of_ok h, if_pos (isTarget_next hm.pc control h)]

theorem WellFormed.kind_of_jump (hm : m.WellFormed) {i : Instruction} {target : Int}
    (control : i.fallsThrough = false) (h : m.execute i = (Execution.jump target).run m) :
    (m.perform i).kind = if isTarget target then none else some .memory := by
  rw [Execution.run_jump] at h
  by_cases place : isTarget target = true
  · rw [if_pos place] at h ⊢
    exact hm.kind_of_control control h
  · rw [if_neg place] at h ⊢
    exact kind_of_error h

theorem WellFormed.kind_of_call (hm : m.WellFormed) (target : Address) :
    (m.perform (.call target)).kind =
      if target.val % 2 = 1 then some .memory
      else if m.calls.items.length = 16 then some .callsFull
      else none := by
  have run : m.execute (.call target) = _ := Execution.run_call m target
  by_cases place : isTarget target.val = true
  · have even := (isTarget_address target).mp place
    rw [if_pos place] at run
    rw [if_neg (by omega)]
    by_cases full : m.calls.isFull = true
    · rw [if_pos full] at run
      rw [if_pos (hm.isFull_iff.mp full)]
      exact kind_of_error run
    · rw [if_neg full] at run
      rw [if_neg fun deep => full (hm.isFull_iff.mpr deep)]
      exact hm.kind_of_control rfl run
  · have odd : ¬ target.val % 2 = 0 := fun even => place ((isTarget_address target).mpr even)
    rw [if_neg place] at run
    rw [if_pos (by omega)]
    exact kind_of_error run

theorem WellFormed.kind_of_ret (hm : m.WellFormed) :
    (m.perform .ret).kind = match m.calls.items.getLast? with
      | none => some .callsEmpty
      | some address => if 0xFFE < address then some .memory else none := by
  cases top : m.calls.items.getLast? with
  | none =>
    have empty := List.getLast?_eq_none_iff.mp top
    exact kind_of_error (i := .ret) (Execution.run_ret_of_empty empty)
  | some address =>
    have run : m.execute .ret = _ := Execution.run_ret_of_last top
    have place := hm.isTarget_return top
    by_cases beyond : 0xFFE < address
    · rw [if_neg fun target => place.mp target beyond] at run
      rw [kind_of_error run]
      exact (if_pos beyond).symm
    · rw [if_pos (place.mpr beyond)] at run
      rw [hm.kind_of_control rfl run]
      exact (if_neg beyond).symm

theorem WellFormed.kind_of_fallsThrough (hm : m.WellFormed) (opcode : UInt16) {i : Instruction}
    (falls : i.fallsThrough = true) :
    ((m.fetched opcode).perform i).kind =
      if (0 < m.span i ∧ 0x1000 < m.i + m.span i) ∨ 0xFFE < m.pc + (if m.skips i then 4 else 2)
      then some .memory else none := by
  by_cases fits : m.memory.Fits m.i (m.span i)
  · have inside : ¬ (0 < m.span i ∧ 0x1000 < m.i + m.span i) :=
      fun beyond => (hm.not_fits_iff _).mpr beyond fits
    obtain ⟨m', executed, next⟩ := execute_of_fits (m := m.fetched opcode) hm.display falls fits
    have next : m'.next = m.pc + 2 + if m.skips i then 2 else 0 := next
    have place := hm.isTarget_successor (m.skips i)
    rw [kind_of_ok executed, next]
    by_cases beyond : 0xFFE < m.pc + if m.skips i then 4 else 2
    · rw [if_neg fun target => place.mp target beyond, if_pos (.inr beyond)]
    · rw [if_pos (place.mpr beyond), if_neg (not_or.mpr ⟨inside, beyond⟩)]
  · obtain ⟨fault, failed, kind⟩ := execute_of_not_fits (m := m.fetched opcode) fits
    rw [kind_of_error failed, if_pos (.inl ((hm.not_fits_iff _).mp fits)), kind]

/-! ## When a step fails -/

theorem WellFormed.faults_of_fallsThrough (hm : m.WellFormed) (opcode : UInt16) {i : Instruction}
    (falls : i.fallsThrough = true) (kind : Fault.Kind) :
    ((m.fetched opcode).perform i).kind = some kind ↔ m.FaultsWith i kind := by
  rw [hm.kind_of_fallsThrough opcode falls]
  constructor
  · intro h
    by_cases beyond : (0 < m.span i ∧ 0x1000 < m.i + m.span i) ∨
        0xFFE < m.pc + if m.skips i then 4 else 2
    · rw [if_pos beyond] at h
      cases h
      rcases beyond with ⟨needs, beyond⟩ | beyond
      · exact .spansBeyond needs beyond
      · exact .endsMemory falls beyond
    · rw [if_neg beyond] at h
      cases h
  · intro h
    cases h with
    | spansBeyond needs beyond => exact if_pos (.inl ⟨needs, beyond⟩)
    | endsMemory _ beyond => exact if_pos (.inr beyond)
    | _ => cases falls

/-- A fault of an instruction that says itself where to go on has one of the causes. -/
theorem WellFormed.faultsWith_of_control (hm : m.WellFormed) (opcode : UInt16) {i : Instruction}
    (control : i.fallsThrough = false) {kind : Fault.Kind}
    (h : ((m.fetched opcode).perform i).kind = some kind) : m.FaultsWith i kind := by
  have hf : (m.fetched opcode).WellFormed := hm.fetched opcode
  cases i with
  | ret =>
    rw [hf.kind_of_ret] at h
    split at h
    · next empty =>
      cases h
      exact .returnsNowhere (List.getLast?_eq_none_iff.mp empty)
    · next top =>
      split at h
      · next beyond =>
        cases h
        exact .returnsBeyond top beyond
      · cases h
  | jump target =>
    rw [hf.kind_of_jump control rfl] at h
    split at h
    · cases h
    · next nowhere =>
      cases h
      have odd : ¬ target.val % 2 = 0 := fun even => nowhere ((isTarget_address target).mpr even)
      exact .jumpsOdd (by omega)
  | call target =>
    rw [hf.kind_of_call] at h
    split at h
    · next odd =>
      cases h
      exact .callsOdd odd
    · split at h
      · next full =>
        cases h
        exact .callsDeep (by omega) full
      · cases h
  | jumpOffset target =>
    rw [hf.kind_of_jump control rfl] at h
    split at h
    · cases h
    · next nowhere =>
      cases h
      exact .jumpsAside rfl (Classical.not_not.mp fun place => nowhere ((isTarget_offset _ _).mpr place))
  | awaitKey x =>
    rw [hf.kind_of_control (i := .awaitKey x) control rfl] at h
    cases h
  | _ => cases control

/-- And every cause has its fault. -/
theorem WellFormed.kind_of_faultsWith (hm : m.WellFormed) (opcode : UInt16) {i : Instruction}
    (control : i.fallsThrough = false) {kind : Fault.Kind} (h : m.FaultsWith i kind) :
    ((m.fetched opcode).perform i).kind = some kind := by
  have hf : (m.fetched opcode).WellFormed := hm.fetched opcode
  cases h with
  | returnsNowhere empty =>
    have top : (m.fetched opcode).calls.items.getLast? = none := List.getLast?_eq_none_iff.mpr empty
    rw [hf.kind_of_ret, top]
  | returnsBeyond top beyond =>
    have top : (m.fetched opcode).calls.items.getLast? = _ := top
    rw [hf.kind_of_ret, top]
    exact if_pos beyond
  | jumpsOdd odd =>
    rw [hf.kind_of_jump control rfl, if_neg]
    exact fun place => absurd ((isTarget_address _).mp place) (by omega)
  | callsOdd odd => rw [hf.kind_of_call, if_pos odd]
  | callsDeep even full =>
    rw [hf.kind_of_call, if_neg (by omega)]
    exact if_pos full
  | jumpsAside offset astray =>
    subst offset
    rw [hf.kind_of_jump control rfl, if_neg]
    exact fun place => (isTarget_offset _ _).mp place astray
  | spansBeyond needs =>
    cases i with
    | ret | jump | call | jumpOffset | awaitKey => exact absurd needs (Nat.lt_irrefl 0)
    | _ => cases control
  | endsMemory falls => exact absurd falls (control ▸ Bool.false_ne_true)

theorem WellFormed.faults (hm : m.WellFormed) (opcode : UInt16) (i : Instruction) (kind : Fault.Kind) :
    ((m.fetched opcode).perform i).kind = some kind ↔ m.FaultsWith i kind := by
  cases falls : i.fallsThrough with
  | true => exact hm.faults_of_fallsThrough opcode falls kind
  | false => exact ⟨hm.faultsWith_of_control opcode falls, hm.kind_of_faultsWith opcode falls⟩

theorem not_faultsWith_awaitKey {x : Register} {kind : Fault.Kind} :
    ¬ m.FaultsWith (.awaitKey x) kind := by
  intro h
  cases h with
  | spansBeyond needs => exact absurd needs (Nat.lt_irrefl 0)
  | endsMemory falls => cases falls

/-- A wait fails if there is a key to end it and no place to go on. -/
theorem WellFormed.kind_of_awaitingKey (hm : m.WellFormed) (phase : m.phase = .awaitingKey)
    (kind : Fault.Kind) : m.step.kind = some kind ↔
      kind = .memory ∧ m.keypad.latch.isSome = true ∧ m.pc = 0xFFE := by
  have place := isTarget_add_two hm.pc
  cases latch : m.keypad.latch with
  | none => simp [Outcome.kind, step_of_unpressed phase latch]
  | some key =>
    by_cases last : m.pc = 0xFFE
    · have nowhere : ¬ isTarget (m.pc + 2) = true := fun target => place.mp target last
      simp [Outcome.kind, step_of_stuck phase latch nowhere, Fault.kind, last, eq_comm]
    · simp [Outcome.kind, step_of_pressed phase latch (place.mpr last), last]

/-- A step fails in these cases and no others, and each with its kind of fault. -/
theorem step_kind_iff (hm : m.WellFormed) (kind : Fault.Kind) :
    (m.phase = .awaitingKey → (m.step.fault.map Fault.kind = some kind ↔
      kind = .memory ∧ m.keypad.latch.isSome = true ∧ m.pc = 0xFFE)) ∧
    (∀ opcode i, m.phase = .running → m.fetch = .ok opcode →
      Instruction.decode? m.hires opcode = some i →
      (m.step.fault.map Fault.kind = some kind ↔ m.FaultsWith i kind) ∧
      ∀ x, i = .awaitKey x → m.step.fault = none) := by
  refine ⟨?_, ?_⟩
  · intro phase
    exact hm.kind_of_awaitingKey phase kind
  · intro opcode i phase fetched decoded
    rw [step_of_decoded phase fetched decoded]
    refine ⟨hm.faults opcode i kind, ?_⟩
    rintro x rfl
    cases fault : ((m.fetched opcode).perform (.awaitKey x)).fault with
    | none => rfl
    | some f =>
      have failed : ((m.fetched opcode).perform (.awaitKey x)).kind = some f.kind :=
        congrArg (Option.map Fault.kind) fault
      exact absurd ((hm.faults opcode _ _).mp failed) not_faultsWith_awaitKey

/-- A return with no call in progress. -/
theorem step_kind_iff_bareReturn :
    let m := { new {} false false (.cycle []) with
      memory := (Memory.zeros 0x1000).putAll 0x200 [0x00, 0xEE] }
    m.WellFormed ∧ m.fetch = .ok 0x00EE ∧ m.step.fault.map Fault.kind = some .callsEmpty := by
  intro m
  have hm : m.WellFormed := (new_wellFormed {} false false (.cycle [])).setMemory (by decide)
  have fetched : m.fetch = .ok 0x00EE := of_toOption (by decide +kernel)
  have failed := ((step_kind_iff hm .callsEmpty).2 0x00EE .ret rfl fetched (by decide)).1
  exact ⟨hm, fetched, failed.mpr (.returnsNowhere rfl)⟩

/-! ## What a step that fails leaves behind -/

/-- A machine that runs on the last place for an opcode, and finds there an instruction that falls
through and has its bytes in memory. -/
structure RunsOut (m : Machine) (opcode : UInt16) (i : Instruction) : Prop where
  phase : m.phase = .running
  pc : m.pc = 0xFFE
  fetched : m.fetch = .ok opcode
  decoded : Instruction.decode? m.hires opcode = some i
  falls : i.fallsThrough = true
  fits : m.memory.Fits m.i (m.span i)

theorem RunsOut.unique {opcode opcode' : UInt16} {i i' : Instruction} (out : m.RunsOut opcode i)
    (fetched : m.fetch = .ok opcode') (decoded : Instruction.decode? m.hires opcode' = some i') :
    opcode = opcode' ∧ i = i' := by
  obtain rfl := Except.ok.inj (out.fetched.symm.trans fetched)
  exact ⟨rfl, Option.some.inj (out.decoded.symm.trans decoded)⟩

/-- What has been executed without a place to go on either was the last instruction of memory, or has
only skipped it. -/
theorem WellFormed.of_stranded (hm : m.WellFormed) {m' : Machine} {opcode : UInt16} {i : Instruction}
    (phase : m.phase = .running) (fetched : m.fetch = .ok opcode)
    (decoded : Instruction.decode? m.hires opcode = some i)
    (executed : (m.fetched opcode).execute i = .ok () m') (nowhere : ¬ isTarget m'.next = true) :
    m.RunsOut opcode i ∨ ∃ next, m' = { m.fetched opcode with next := next } := by
  have hf := hm.fetched opcode
  have falls : i.fallsThrough = true := by
    cases control : i.fallsThrough with
    | true => rfl
    | false => exact absurd (isTarget_next hf.pc control executed) nowhere
  have fits : m.memory.Fits m.i (m.span i) := by
    refine Decidable.byContradiction fun beyond => ?_
    obtain ⟨fault, failed, _⟩ := execute_of_not_fits (m := m.fetched opcode) beyond
    exact nomatch failed.symm.trans executed
  -- The next place is two bytes on, or four behind a skip: two bytes leave memory only at its end.
  cases skips : m.skips i with
  | true =>
    have skipped := execute_of_skips (m := m.fetched opcode) skips
    cases executed.symm.trans skipped
    exact .inr ⟨_, rfl⟩
  | false =>
    obtain ⟨m'', executed'', next⟩ := execute_of_fits (m := m.fetched opcode) hf.display falls fits
    cases executed.symm.trans executed''
    have next : m'.next = m.pc + 2 + if m.skips i then 2 else 0 := next
    have place := hm.isTarget_successor (m.skips i)
    have here := isTarget_iff.mp hm.pc
    rw [← next, skips, if_neg Bool.false_ne_true] at place
    unfold Layout.highestPC at here
    have beyond : 0xFFE < m.pc + 2 := Decidable.not_not.mp (mt place.mpr nowhere)
    have last : m.pc = 0xFFE := by omega
    exact .inl ⟨phase, last, fetched, decoded, falls, fits⟩

/-- A step that fails leaves nothing behind but the record of what it fetched, unless it executed the
last instruction of memory. -/
theorem step_atomic (hm : m.WellFormed) (failed : m.step.fault ≠ none) :
    ((¬ ∃ opcode i, m.RunsOut opcode i) →
      { m.step.machine with origin := m.origin, opcode := m.opcode, next := m.next } = m) ∧
    ∀ opcode i, m.RunsOut opcode i →
      (m.fetched opcode).execute i = .ok () m.step.machine ∧
      m.step.machine.pc = m.pc ∧ m.step.machine.executed = m.executed := by
  have stepped := m.stepped
  generalize m.step.machine = m', m.step.fault = fault at stepped failed ⊢
  cases stepped with
  | waiting | resolved | completed => exact absurd rfl failed
  | stuck phase =>
    exact ⟨fun _ => rfl, fun _ _ out => nomatch phase.symm.trans out.phase⟩
  | unfetched _ missing =>
    exact ⟨fun _ => rfl, fun _ _ out => nomatch missing.symm.trans out.fetched⟩
  | unknown _ fetched undecoded =>
    refine ⟨fun _ => rfl, fun _ _ out => ?_⟩
    obtain rfl := Except.ok.inj (out.fetched.symm.trans fetched)
    exact nomatch undecoded.symm.trans out.decoded
  | refused _ fetched decoded refused =>
    -- The handler has left the machine as it found it, by the order of its checks and changes.
    obtain rfl := eq_of_execute_error (hm.fetched _).display refused
    refine ⟨fun _ => rfl, fun opcode i out => ?_⟩
    obtain ⟨rfl, rfl⟩ := out.unique fetched decoded
    obtain ⟨_, executed, _⟩ := execute_of_fits (m := m.fetched opcode) hm.display out.falls out.fits
    exact nomatch refused.symm.trans executed
  | stranded phase fetched decoded executed nowhere =>
    refine ⟨fun inside => ?_, fun opcode i out => ?_⟩
    · rcases hm.of_stranded phase fetched decoded executed nowhere with out | ⟨_, rfl⟩
      · exact absurd ⟨_, _, out⟩ inside
      · rfl
    · obtain ⟨rfl, rfl⟩ := out.unique fetched decoded
      have place := samePlace_of_execute executed
      exact ⟨executed, place.pc, place.executed⟩

/-- The last instruction of memory sets a register, which stays set. -/
theorem step_atomic_lastOpcode :
    let m := { new {} false false (.cycle []) with
      pc := 0xFFE
      memory := (Memory.zeros 0x1000).putAll 0xFFE [0x60, 0x2A] }
    m.WellFormed ∧ m.step.fault ≠ none ∧ m.RunsOut 0x602A (.setByte 0 0x2A) ∧
      (m.fetched 0x602A).execute (.setByte 0 0x2A) = .ok () m.step.machine := by
  intro m
  have hm : m.WellFormed := { new_wellFormed {} false false (.cycle []) with
    memory := by decide
    pc := by decide }
  have fetched : m.fetch = .ok 0x602A := of_toOption (by decide +kernel)
  have decoded : Instruction.decode? m.hires 0x602A = some (.setByte 0 0x2A) := by decide
  have kind : m.step.kind = some .memory := by
    rw [step_of_decoded rfl fetched decoded]
    exact (hm.faults _ _ _).mpr (.endsMemory rfl (by decide))
  have failed : m.step.fault ≠ none :=
    fun none => nomatch kind.symm.trans (congrArg (Option.map Fault.kind) none)
  have out : m.RunsOut 0x602A (.setByte 0 0x2A) := ⟨rfl, rfl, fetched, decoded, rfl, by decide⟩
  exact ⟨hm, failed, out, ((step_atomic hm failed).2 _ _ out).1⟩

end Machine

end Chip8
