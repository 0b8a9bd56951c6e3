import Chip8.Proofs.Configuration
import Chip8.Proofs.Decoding

/-! Two machines that differ in one setting. Each setting has its scope, the instructions that ask for
it; any other instruction does the same on both machines. So as long as a history meets none in the
scope, the machines go on differing in nothing else, and fail alike. -/

namespace Chip8

/-- What a configuration may turn on and off. -/
inductive Feature where
  | switch (s : Switch)
  /-- The high resolution. -/
  | hires
  deriving DecidableEq, Repr

/-- Operations that leave the configuration as it is. -/
def Operation.keepsDialect : Operation → Bool
  | setDialect _ => false
  | load _ _ | reset _ | step | tick | setKey _ _ => true

def AluOp.shifts : AluOp → Bool
  | shiftRight | shiftLeft => true
  | _ => false

def AluOp.isLogic : AluOp → Bool
  | or | and | xor => true
  | _ => false

/-- A feature that is turned on or off, as a change of the configuration. -/
def Feature.change (on : Bool) : Feature → Change
  | switch s => { dialect := (·.set s on) }
  | hires => { hires := fun _ => on }

namespace Machine

/-- The machine with another configuration. -/
def configure (m : Machine) (dialect : Dialect) (hires : Bool) : Machine :=
  { m with dialect := dialect, hires := hires }

/-- The machine with a feature turned on or off. -/
def turn (m : Machine) (on : Bool) (feature : Feature) : Machine :=
  m.configure
    (match feature with
      | .switch s => m.dialect.set s on
      | .hires => m.dialect)
    (match feature with
      | .switch _ => m.hires
      | .hires => on)

/-- Whether an instruction is in the scope of a feature. -/
def concerns (m : Machine) : Feature → Instruction → Bool
  | .switch .shift, .alu op x y => op.shifts && x != y
  | .switch .shiftFlag, .alu op x _ => op.shifts && x == .flag
  | .switch .load, .dump _ | .switch .load, .fill _ => true
  | .switch .indexIncrement, .dump _ | .switch .indexIncrement, .fill _ => m.dialect.load
  | .switch .indexOverflow, .addIndex _ => true
  | .switch .jump, .jumpOffset target => 0x100 ≤ target.val
  | .switch .logic, .alu op _ _ => op.isLogic
  | .switch .clip, .draw x y height => m.overhangs x y height
  | .hires, .lowResolution | .hires, .highResolution => true
  | .hires, .draw _ _ height => height.val == 0
  | _, _ => false

/-- A step meets an instruction in the scope of a feature. Those that change the resolution count on
either machine. -/
def InScope (m : Machine) (feature : Feature) : Prop :=
  m.phase = .running ∧ ∃ opcode i, m.fetch = .ok opcode ∧ Instruction.decode? true opcode = some i ∧
    m.concerns feature i = true

variable {m : Machine} {feature : Feature} {i : Instruction}

/-! ## What instructions ask of the configuration -/

theorem compute_set (d : Dialect) (s : Switch) (on : Bool) {op : AluOp} {x y : Register}
    (outside : m.concerns (.switch s) (.alu op x y) = false) :
    op.compute (d.set s on) (m.getV x) (m.getV y) = op.compute d (m.getV x) (m.getV y) := by
  cases s with
  | shift =>
    cases op with
    | shiftRight | shiftLeft =>
      obtain rfl : x = y := bne_eq_false_iff_eq.mp outside
      simp only [AluOp.compute, ite_self]
    | _ => rfl
  | logic =>
    cases op with
    | or | and | xor => cases outside
    | _ => rfl
  | _ => cases op <;> rfl

theorem flagFirst_set (d : Dialect) (s : Switch) (on : Bool) {op : AluOp} {x y : Register}
    (outside : m.concerns (.switch s) (.alu op x y) = false) :
    op.flagFirst (d.set s on) = op.flagFirst d ∨ x ≠ .flag := by
  cases s with
  | shiftFlag =>
    cases op with
    | shiftRight | shiftLeft => exact .inr (beq_eq_false_iff_ne.mp outside)
    | _ => exact .inl rfl
  | _ => cases op <;> exact .inl rfl

theorem jumpRegister_set (d : Dialect) (s : Switch) (on : Bool) {target : Address}
    (outside : m.concerns (.switch s) (.jumpOffset target) = false) :
    jumpRegister (d.set s on) target = jumpRegister d target := by
  cases s with
  | jump =>
    have small : target.val / 0x100 = 0 := Nat.div_eq_of_lt (Nat.not_le.mp (of_decide_eq_false outside))
    have first : ∀ bound, (⟨target.val / 0x100, bound⟩ : Register) = Register.first :=
      fun _ => Fin.ext small
    simp only [jumpRegister, first, ite_self]
  | _ => rfl

theorem indexAfter_set (s : Switch) (on : Bool) (index : Int) {x : Register}
    (outside : m.concerns (.switch s) (.dump x) = false) :
    indexAfter (m.dialect.set s on) index x = indexAfter m.dialect index x := by
  cases s with
  | load => cases outside
  | indexIncrement =>
    have unused : m.dialect.load = false := outside
    simp only [indexAfter, Dialect.set, unused, Bool.false_eq_true, if_false]
  | _ => rfl

theorem ofHeight_of_pos (lowRes hires hires' : Bool) {height : Nat} (positive : height ≠ 0) :
    SpriteShape.ofHeight hires' lowRes height = SpriteShape.ofHeight hires lowRes height := by
  simp only [SpriteShape.ofHeight, positive, false_and, if_false]

/-- Outside its scope a feature changes no answer. -/
theorem agrees_of_concerns (on : Bool) (outside : m.concerns feature i = false) :
    m.Agrees (m.turn on feature).dialect (m.turn on feature).hires i := by
  cases feature with
  | switch s =>
    cases i with
    | alu op x y => exact ⟨compute_set _ s on outside, flagFirst_set _ s on outside⟩
    | jumpOffset target => exact jumpRegister_set _ s on outside
    | addIndex x =>
      cases s with
      | indexOverflow => cases outside
      | _ => rfl
    | dump x => exact indexAfter_set s on _ outside
    | fill x => exact indexAfter_set s on _ (by cases s <;> exact outside)
    | draw x y height =>
      refine ⟨rfl, ?_⟩
      cases s with
      | clip => exact .inr outside
      | _ => exact .inl rfl
    | _ => trivial
  | hires =>
    cases i with
    | alu => exact ⟨rfl, .inl rfl⟩
    | jumpOffset | addIndex | dump | fill => rfl
    | draw x y height => exact ⟨ofHeight_of_pos _ _ _ (beq_eq_false_iff_ne.mp outside), .inl rfl⟩
    | _ => trivial

end Machine

/-! ## Decoding -/

theorem Instruction.decode?_of_hires {hires : Bool} {w : UInt16} {i : Instruction}
    (h : decode? hires w = some i) : decode? true w = some i := by
  obtain ⟨_, covers, same⟩ := of_decode? h
  have known : i.form.known true = true := by cases i <;> rfl
  rw [decode?_of_covers known covers, ← same]

/-- Only the two instructions that change the resolution depend on there being another one. -/
theorem Instruction.decode?_hires {w : UInt16} (low : decode? true w ≠ some lowResolution)
    (high : decode? true w ≠ some highResolution) (hires : Bool) :
    decode? hires w = decode? true w := by
  apply Option.ext
  intro i
  constructor
  · exact decode?_of_hires
  · intro decoded
    obtain ⟨_, covers, same⟩ := of_decode? decoded
    have known : i.form.known hires = true := by
      cases i with
      | lowResolution => exact absurd decoded low
      | highResolution => exact absurd decoded high
      | _ => rfl
    rw [decode?_of_covers known covers, ← same]

namespace Machine

variable {m : Machine} {feature : Feature} {i : Instruction}

theorem decode?_turn {w : UInt16} (on : Bool)
    (outside : ∀ i, Instruction.decode? true w = some i → m.concerns feature i = false) :
    Instruction.decode? (m.turn on feature).hires w = Instruction.decode? m.hires w := by
  cases feature with
  | switch s => rfl
  | hires =>
    have low : Instruction.decode? true w ≠ some .lowResolution := fun decoded =>
      Bool.noConfusion (outside _ decoded)
    have high : Instruction.decode? true w ≠ some .highResolution := fun decoded =>
      Bool.noConfusion (outside _ decoded)
    rw [Instruction.decode?_hires low high, Instruction.decode?_hires low high m.hires]

/-! ## Histories -/

/-- Turning a feature changes the configuration. -/
theorem turn_eq (m : Machine) (on : Bool) (feature : Feature) :
    m.turn on feature = m.refit (feature.change on) := by
  cases feature <;> rfl

/-- A step outside the scope of a feature does not tell whether the feature is on. -/
theorem steady_of_outside (on : Bool) (outside : ¬ m.InScope feature) :
    m.Steady (feature.change on) := by
  intro phase w fetched
  have unscoped : ∀ i, Instruction.decode? true w = some i → m.concerns feature i = false :=
    fun i decoded => Bool.eq_false_iff.mpr fun concerned =>
      outside ⟨phase, w, i, fetched, decoded, concerned⟩
  have turned := m.turn_eq on feature
  refine ⟨?_, fun i decoded => ?_⟩
  · have same := decode?_turn on unscoped
    rwa [turned] at same
  · have agrees := agrees_of_concerns on (unscoped i (Instruction.decode?_of_hires decoded))
    rwa [turned] at agrees

theorem suits_of_outside (on : Bool) {operation : Operation} (kept : operation.keepsDialect = true)
    (outside : operation = .step → ¬ m.InScope feature) : m.Suits (feature.change on) operation := by
  cases operation with
  | step => exact steady_of_outside on (outside rfl)
  | setDialect => cases kept
  | load | reset | tick | setKey => trivial

theorem answer_turn (on : Bool) {operation : Operation} (kept : operation.keepsDialect = true)
    (outside : operation = .step → ¬ m.InScope feature) :
    ((m.turn on feature).answer operation).machine = (m.answer operation).machine.turn on feature ∧
      ((m.turn on feature).answer operation).failure = (m.answer operation).failure := by
  rw [turn_eq, turn_eq]
  exact answer_refit (suits_of_outside on kept outside)

theorem turn_after (m : Machine) (feature : Feature) (on : Bool) {operations : List Operation}
    (kept : ∀ operation ∈ operations, operation.keepsDialect = true)
    (outside : ∀ met, (met, .step) ∈ m.past operations → ¬ met.InScope feature) :
    (m.turn on feature).after operations = (m.after operations).turn on feature := by
  rw [turn_eq, turn_eq]
  refine m.after_refit fun met operation h => ?_
  obtain ⟨before, rest, split, _⟩ := of_mem_past h
  have member : operation ∈ operations := by
    rw [split]
    exact List.mem_append_right _ List.mem_cons_self
  exact suits_of_outside on (kept operation member) fun step => outside met (step ▸ h)

/-- The features of a machine are orthogonal. As long as no step of a history meets an instruction in
the scope of a feature, each operation finds, leaves and answers the same whether the feature is on
or off. -/
theorem answers_turn (m : Machine) (feature : Feature) (on : Bool) {operations : List Operation}
    (kept : ∀ operation ∈ operations, operation.keepsDialect = true)
    (outside : ∀ met, (met, .step) ∈ m.past operations → ¬ met.InScope feature) :
    ∀ before operation rest, operations = before ++ operation :: rest →
      let answer := (m.after before).answer operation
      let turned := ((m.turn on feature).after before).answer operation
      turned.machine = answer.machine.turn on feature ∧ turned.failure = answer.failure := by
  rintro before operation rest rfl
  have met : ∀ {m' : Machine}, (m', .step) ∈ m.past before → ¬ m'.InScope feature := fun h =>
    outside _ (by rw [past_append]; exact List.mem_append_right _ h)
  have now : operation = .step → ¬ (m.after before).InScope feature := fun step =>
    outside _ (by subst step; rw [past_append]; simp [past])
  rw [turn_after m feature on (fun o h => kept o (List.mem_append_left _ h)) fun _ => met]
  exact answer_turn on (kept operation (by simp)) now

/-- Shifting a register into itself does not tell which register a shift reads. -/
theorem answers_turn_shift :
    let m : Machine := { new {} false false (.cycle []) with
      memory := (Memory.zeros 0x1000).putAll 0x200 [0x81, 0x16] }
    let operations : List Operation := [.tick, .step, .setKey 16 true]
    (∀ operation ∈ operations, operation.keepsDialect = true) ∧
      (∀ met, (met, .step) ∈ m.past operations → ¬ met.InScope (.switch .shift)) ∧
      (((m.turn true (.switch .shift)).after [.tick]).answer .step).machine =
        ((m.after [.tick]).answer .step).machine.turn true (.switch .shift) ∧
      (((m.turn true (.switch .shift)).after [.tick]).answer .step).failure = none := by
  intro m operations
  have kept : ∀ operation ∈ operations, operation.keepsDialect = true := by decide
  have outside : ∀ met, (met, .step) ∈ m.past operations → ¬ met.InScope (.switch .shift) := by
    intro met h
    obtain rfl : met = m.tick := by simpa [past, answer, operations] using h
    rintro ⟨_, w, i, fetched, decoded, concerned⟩
    have opcode : m.fetch = .ok 0x8116 := of_toOption (by decide +kernel)
    obtain rfl := Except.ok.inj (opcode.symm.trans fetched)
    obtain rfl : Instruction.alu .shiftRight 1 1 = i := Option.some.inj decoded
    cases concerned
  obtain ⟨machine, failure⟩ := answers_turn m (.switch .shift) true kept outside [.tick] .step _ rfl
  have completed : (m.after [.tick]).step.fault = none := by decide +kernel
  have silent : ((m.after [.tick]).answer .step).failure = none := by
    rw [answer, completed, Option.map_none]
  exact ⟨kept, outside, machine, failure.trans silent⟩

end Machine

end Chip8
