import Chip8.Proofs.History

/-! A machine with another configuration. An instruction that gets the same answers from both
configurations does the same on both machines, and what opcodes mean and who watches makes no other
difference. So as long as a history asks nothing that the two configurations answer differently, a
change of the configuration commutes with all of it. -/

namespace Chip8

/-- A change of the configuration; what is not given stays. -/
structure Change where
  dialect : Dialect → Dialect := id
  hires : Bool → Bool := id
  traced : Bool → Bool := id

namespace Machine

def refit (m : Machine) (c : Change) : Machine :=
  { m with dialect := c.dialect m.dialect, hires := c.hires m.hires, traced := c.traced m.traced }

/-- Whether the rectangle of a sprite, from an origin on the screen, crosses the right or the bottom
edge. A sprite without rows has no rectangle. -/
def overhangs (m : Machine) (x y : Register) (height : Nat) : Bool :=
  let shape := m.shape height
  0 < shape.height &&
    (m.display.width < (m.getV x).toNat % m.display.width + shape.width ||
      m.display.height < (m.getV y).toNat % m.display.height + shape.height)

/-- An instruction gets the same answers from another configuration. -/
def Agrees (m : Machine) (dialect : Dialect) (hires : Bool) : Instruction → Prop
  | .alu op x y =>
    op.compute dialect (m.getV x) (m.getV y) = op.compute m.dialect (m.getV x) (m.getV y) ∧
      (op.flagFirst dialect = op.flagFirst m.dialect ∨ x ≠ .flag)
  | .jumpOffset target => jumpRegister dialect target = jumpRegister m.dialect target
  | .addIndex _ => dialect.indexOverflow = m.dialect.indexOverflow
  | .dump x | .fill x => indexAfter dialect m.i x = indexAfter m.dialect m.i x
  | .draw x y height =>
    SpriteShape.ofHeight hires m.lowRes height = m.shape height ∧
      (dialect.clip = m.dialect.clip ∨ m.overhangs x y height = false)
  | _ => True

/-- A step asks nothing that a change of the configuration would answer differently. -/
def Steady (m : Machine) (c : Change) : Prop :=
  m.phase = .running → ∀ opcode, m.fetch = .ok opcode →
    Instruction.decode? (c.hires m.hires) opcode = Instruction.decode? m.hires opcode ∧
      ∀ i, Instruction.decode? m.hires opcode = some i →
        m.Agrees (c.dialect m.dialect) (c.hires m.hires) i

/-- Nor does an operation. -/
def Suits (m : Machine) (c : Change) : Operation → Prop
  | .step => m.Steady c
  | .setDialect dialect => c.dialect dialect = dialect
  | _ => True

end Machine

/-! ## Drawing within the screen -/

namespace Display

theorem size_of_invert {d d' : Display} {x y : Int} {wrap : Bool} {lit : Option Bool}
    (h : d.invert x y wrap = .ok (lit, d')) : d'.width = d.width ∧ d'.height = d.height := by
  unfold invert at h
  split at h
  · cases h
    exact ⟨rfl, rfl⟩
  · split at h <;> cases h
    exact ⟨rfl, rfl⟩

/-- A point on the screen is its own pixel, whether points wrap or not. -/
theorem pixelAt_of_onScreen {d : Display} {x y : Nat} (h : d.onScreen (x, y)) (wrap : Bool) :
    d.pixelAt x y wrap = some (x, y) := by
  cases wrap with
  | true => rw [pixelAt, if_pos rfl, Nat.mod_eq_of_lt h.1, Nat.mod_eq_of_lt h.2]
  | false =>
    rw [pixelAt, if_neg Bool.false_ne_true]
    exact if_pos h

theorem invertAll_of_onScreen {d : Display} {x y : Nat} {points : List (Nat × Nat)}
    (h : ∀ p ∈ points, d.onScreen (x + p.1, y + p.2)) (wrap wrap' : Bool) :
    (invertAll x y wrap points).run d = (invertAll x y wrap' points).run d := by
  induction points generalizing d with
  | nil => rfl
  | cons point rest ih =>
    obtain ⟨first, others⟩ := List.forall_mem_cons.mp h
    have same : d.invert (x + point.1 : Nat) (y + point.2 : Nat) wrap =
        d.invert (x + point.1 : Nat) (y + point.2 : Nat) wrap' := by
      rw [invert, invert, locate_natCast, locate_natCast, pixelAt_of_onScreen first,
        pixelAt_of_onScreen first]
    simp only [invertAll, EStateM.run_bind, EStateM.run_get, same]
    cases inverted : d.invert (x + point.1 : Nat) (y + point.2 : Nat) wrap' with
    | error fault => rfl
    | ok result =>
      obtain ⟨width, height⟩ := size_of_invert inverted
      have rest : (invertAll x y wrap rest).run result.2 = (invertAll x y wrap' rest).run result.2 := by
        refine ih fun p hp => ?_
        rw [onScreen, width, height]
        exact others p hp
      simp only [Execution.run_lift_ok, EStateM.run_set, rest]

end Display

namespace Machine

open Execution

variable {m : Machine} {c : Change} {i : Instruction}

@[simp] theorem refit_memory : (m.refit c).memory = m.memory := rfl
@[simp] theorem refit_i : (m.refit c).i = m.i := rfl
@[simp] theorem refit_display : (m.refit c).display = m.display := rfl
@[simp] theorem refit_lowRes : (m.refit c).lowRes = m.lowRes := rfl
@[simp] theorem refit_phase : (m.refit c).phase = m.phase := rfl
@[simp] theorem refit_fetch : (m.refit c).fetch = m.fetch := rfl

/-- The lit pixels of a sprite that does not overhang lie on the screen. -/
theorem onScreen_of_overhangs {x y : Register} {height : Nat} {bytes : List UInt8}
    (sized : bytes.length = (m.shape height).bytes) (within : m.overhangs x y height = false) :
    ∀ p ∈ spritePoints (m.shape height).width (spriteRows (m.shape height).wide bytes),
      m.display.onScreen ((m.getV x).toNat % m.display.width + p.1,
        (m.getV y).toNat % m.display.height + p.2) := by
  rintro ⟨column, row⟩ lit
  have set := (mem_points_iff sized).mp lit
  simp only [SpriteShape.isSet, Bool.and_eq_true, decide_eq_true_eq] at set
  obtain ⟨⟨columns, rows⟩, _⟩ := set
  simp only [overhangs, Bool.and_eq_false_iff, Bool.or_eq_false_iff, decide_eq_false_iff_not] at within
  rcases within with empty | ⟨right, bottom⟩
  · omega
  · exact ⟨by omega, by omega⟩

/-! ## Executing an instruction -/

theorem agrees_self (m : Machine) (i : Instruction) : m.Agrees m.dialect m.hires i := by
  cases i with
  | alu => exact ⟨rfl, .inl rfl⟩
  | draw => exact ⟨rfl, .inl rfl⟩
  | jumpOffset | addIndex | dump | fill => rfl
  | _ => trivial

theorem setV_comm (m : Machine) {x y : Register} (h : x ≠ y) (a b : UInt8) :
    (m.setV x a).setV y b = (m.setV y b).setV x a := by
  have apart : x.val ≠ y.val := fun same => h (Fin.ext same)
  simp only [setV, Vector.set_comm _ _ apart]

/-- What comes of an instruction, with the change made to the machine that it leaves. -/
def refitResult (c : Change) :
    EStateM.Result Fault Machine Unit → EStateM.Result Fault Machine Unit
  | .ok () m => .ok () (m.refit c)
  | .error fault m => .error fault (m.refit c)

theorem runAlu_refit {op : AluOp} {x y : Register}
    (agrees : m.Agrees (c.dialect m.dialect) (c.hires m.hires) (.alu op x y)) :
    (m.refit c).runAlu op x y = (m.runAlu op x y).refit c := by
  obtain ⟨computed, order⟩ := agrees
  have same : op.compute (m.refit c).dialect ((m.refit c).getV x) ((m.refit c).getV y) = _ := computed
  simp only [runAlu, same]
  split
  · rfl
  · next result flag _ =>
    rcases order with order | other
    · have order : op.flagFirst (m.refit c).dialect = _ := order
      rw [order]
      split <;> rfl
    · have swap : ∀ m : Machine, (m.setFlag flag).setV x result = (m.setV x result).setFlag flag :=
        fun m => setV_comm m (Ne.symm other) _ _
      simp only [swap, ite_self]
      rfl

theorem jump_refit (target : Int) :
    (Execution.jump target).run (m.refit c) = refitResult c ((Execution.jump target).run m) := by
  rw [run_jump, run_jump]
  split <;> rfl

theorem call_refit (target : Address) :
    (Execution.call target).run (m.refit c) = refitResult c ((Execution.call target).run m) := by
  rw [run_call, run_call]
  repeat' split
  all_goals first | rfl | contradiction

theorem ret_refit : Execution.ret.run (m.refit c) = refitResult c (Execution.ret.run m) := by
  cases top : m.calls.items.getLast? with
  | none =>
    have empty := List.getLast?_eq_none_iff.mp top
    rw [run_ret_of_empty empty, run_ret_of_empty (m := m.refit c) empty]
    rfl
  | some address =>
    rw [run_ret_of_last top, run_ret_of_last (m := m.refit c) top]
    split <;> rfl

theorem skipIf_refit (condition : Bool) :
    (m.refit c).skipIf condition = (m.skipIf condition).refit c := by
  unfold skipIf
  split <;> rfl

theorem setResolution_refit (low : Bool) :
    (m.refit c).setResolution low = (m.setResolution low).refit c := by
  unfold setResolution
  rw [refit_lowRes]
  split <;> rfl

theorem addIndex_refit {x : Register}
    (agrees : m.Agrees (c.dialect m.dialect) (c.hires m.hires) (.addIndex x)) :
    (m.refit c).addIndex x = (m.addIndex x).refit c := by
  have same : (m.refit c).dialect.indexOverflow = m.dialect.indexOverflow := agrees
  simp only [addIndex, same]
  split <;> rfl

theorem advanceIndex_refit {x : Register} (m : Machine)
    (agrees : indexAfter (c.dialect m.dialect) m.i x = indexAfter m.dialect m.i x) :
    (m.refit c).advanceIndex x = (m.advanceIndex x).refit c := by
  unfold advanceIndex
  have same : indexAfter (m.refit c).dialect (m.refit c).i x = _ := agrees
  rw [same]
  rfl

theorem stampAt_refit {x y : Register} {height : Fin 16}
    (same : SpriteShape.ofHeight (c.hires m.hires) m.lowRes height = m.shape height) :
    (m.refit c).stampAt x y height =
      (m.stampAt x y height).map fun s => { s with wrap := !(c.dialect m.dialect).clip } := by
  have shape : (m.refit c).shape height = m.shape height := same
  unfold stampAt
  rw [shape, refit_memory, refit_i]
  cases m.memory.readBlock m.i (m.shape height).bytes with
  | error fault => rfl
  | ok bytes =>
    simp only [Except.map, stampOf, shape]
    rfl

theorem draw_refit {x y : Register} {height : Fin 16}
    (agrees : m.Agrees (c.dialect m.dialect) (c.hires m.hires) (.draw x y height)) :
    (Execution.draw x y height).run (m.refit c) =
      refitResult c ((Execution.draw x y height).run m) := by
  obtain ⟨shape, wrapping⟩ := agrees
  have refitted := stampAt_refit (x := x) (y := y) shape
  cases found : m.stampAt x y height with
  | error fault =>
    rw [found] at refitted
    rw [run_draw_of_refused found, run_draw_of_refused refitted]
    rfl
  | ok s =>
    rw [found] at refitted
    -- What wraps instead of being cut off, or the other way round, has to lie on the screen.
    have same : (Display.invertAll s.x s.y (!(c.dialect m.dialect).clip)
          (spritePoints s.shape.width (spriteRows s.shape.wide s.bytes))).run m.display =
        (Display.invertAll s.x s.y s.wrap
          (spritePoints s.shape.width (spriteRows s.shape.wide s.bytes))).run m.display := by
      obtain ⟨bytes, rfl, sized, _⟩ := stampAt_eq_ok found
      rcases wrapping with equal | within
      · rw [equal]
        rfl
      · exact Display.invertAll_of_onScreen (onScreen_of_overhangs sized within) _ _
    rw [run_draw_of_stampAt found, run_draw_of_stampAt refitted, EStateM.run_bind, EStateM.run_bind]
    simp only [EStateM.run] at same
    simp only [EStateM.run, onDisplay, refit_display, same]
    cases Display.invertAll s.x s.y s.wrap
      (spritePoints s.shape.width (spriteRows s.shape.wide s.bytes)) m.display <;> rfl

/-- An instruction that gets the same answers does the same. -/
theorem execute_refit (agrees : m.Agrees (c.dialect m.dialect) (c.hires m.hires) i) :
    (m.refit c).execute i = refitResult c (m.execute i) := by
  cases i with
  | clear | setByte | addByte | setIndex | random | readDelay | awaitKey | setDelay | setSound
  | glyph => rfl
  | ret => exact ret_refit
  | lowResolution | highResolution =>
    exact congrArg (EStateM.Result.ok ()) (setResolution_refit _)
  | jump target => exact jump_refit _
  | call target => exact call_refit target
  | skipIfByte | skipUnlessByte | skipIfEqual | skipUnlessEqual | skipIfKey | skipUnlessKey =>
    exact congrArg (EStateM.Result.ok ()) (skipIf_refit _)
  | alu op x y => exact congrArg (EStateM.Result.ok ()) (runAlu_refit agrees)
  | jumpOffset target =>
    have same : jumpRegister (m.refit c).dialect target = _ := agrees
    show (Execution.jump _).run (m.refit c) = _
    rw [same]
    exact jump_refit _
  | draw x y height => exact draw_refit agrees
  | addIndex x => exact congrArg (EStateM.Result.ok ()) (addIndex_refit agrees)
  | decimal x =>
    show (storeDecimal x).run (m.refit c) = refitResult c ((storeDecimal x).run m)
    cases written : m.memory.writeBlock m.i (digitsOf (m.getV x)) with
    | error fault =>
      rw [run_storeDecimal_of_refused written, run_storeDecimal_of_refused (m := m.refit c) written]
      rfl
    | ok memory =>
      rw [run_storeDecimal_of_written written, run_storeDecimal_of_written (m := m.refit c) written]
      rfl
  | dump x =>
    show (dump x).run (m.refit c) = refitResult c ((dump x).run m)
    cases written : m.memory.writeBlock m.i (m.v.toList.take (x.val + 1)) with
    | error fault =>
      rw [run_dump_of_refused written, run_dump_of_refused (m := m.refit c) written]
      rfl
    | ok memory =>
      rw [run_dump_of_written written, run_dump_of_written (m := m.refit c) written]
      exact congrArg (EStateM.Result.ok ()) (advanceIndex_refit { m with memory := memory } agrees)
  | fill x =>
    show (fill x).run (m.refit c) = refitResult c ((fill x).run m)
    cases read : m.memory.readBlock m.i (x.val + 1) with
    | error fault =>
      rw [run_fill_of_refused read, run_fill_of_refused (m := m.refit c) read]
      rfl
    | ok bytes =>
      rw [run_fill_of_read read, run_fill_of_read (m := m.refit c) read]
      exact congrArg (EStateM.Result.ok ())
        (advanceIndex_refit { m with v := replaceFirst m.v bytes } agrees)

/-! ## Steps -/

theorem perform_refit (agrees : m.Agrees (c.dialect m.dialect) (c.hires m.hires) i) :
    ((m.refit c).perform i).machine = (m.perform i).machine.refit c ∧
      ((m.refit c).perform i).fault = (m.perform i).fault := by
  have run := execute_refit agrees
  cases executed : m.execute i with
  | error fault m' =>
    rw [executed] at run
    obtain ⟨machine, faulted⟩ := perform_of_error executed
    obtain ⟨machine', faulted'⟩ := perform_of_error run
    exact ⟨by rw [machine', machine], by rw [faulted', faulted]⟩
  | ok _ m' =>
    rw [executed] at run
    obtain ⟨machine, faulted⟩ := perform_of_ok executed
    obtain ⟨machine', faulted'⟩ := perform_of_ok run
    rw [machine', machine, faulted', faulted]
    constructor
    · show (if isTarget m'.next then _ else _) = (if isTarget m'.next then _ else _ : Machine).refit c
      split <;> rfl
    · rfl

theorem step_of_awaitingKey_refit (m : Machine) (c : Change) (phase : m.phase = .awaitingKey) :
    (m.refit c).step.machine = m.step.machine.refit c ∧ (m.refit c).step.fault = m.step.fault := by
  cases latch : m.keypad.latch with
  | none =>
    rw [step_of_unpressed phase latch, step_of_unpressed (m := m.refit c) phase latch]
    exact ⟨rfl, rfl⟩
  | some key =>
    by_cases target : isTarget (m.pc + 2) = true
    · rw [step_of_pressed phase latch target, step_of_pressed (m := m.refit c) phase latch target]
      exact ⟨rfl, rfl⟩
    · rw [step_of_stuck phase latch target, step_of_stuck (m := m.refit c) phase latch target]
      exact ⟨rfl, rfl⟩

theorem step_refit (steady : m.Steady c) :
    (m.refit c).step.machine = m.step.machine.refit c ∧ (m.refit c).step.fault = m.step.fault := by
  cases phase : m.phase with
  | awaitingKey =>
    exact m.step_of_awaitingKey_refit c phase
  | running =>
    cases fetched : m.fetch with
    | error fault =>
      rw [step_of_unfetched phase fetched, step_of_unfetched (m := m.refit c) phase fetched]
      exact ⟨rfl, rfl⟩
    | ok opcode =>
      obtain ⟨same, agrees⟩ := steady phase opcode fetched
      cases decoded : Instruction.decode? m.hires opcode with
      | none =>
        rw [step_of_undecoded phase fetched decoded,
          step_of_undecoded (m := m.refit c) phase fetched (same.trans decoded)]
        exact ⟨rfl, rfl⟩
      | some i =>
        rw [step_of_decoded phase fetched decoded,
          step_of_decoded (m := m.refit c) phase fetched (same.trans decoded)]
        have agrees : (m.fetched opcode).Agrees (c.dialect m.dialect) (c.hires m.hires) i := by
          have agrees := agrees i decoded
          cases i <;> exact agrees
        exact perform_refit (m := m.fetched opcode) agrees

/-! ## Histories -/

theorem answer_refit {operation : Operation} (suits : m.Suits c operation) :
    ((m.refit c).answer operation).machine = (m.answer operation).machine.refit c ∧
      ((m.refit c).answer operation).failure = (m.answer operation).failure := by
  cases operation with
  | load program address =>
    have loaded : (m.refit c).loadProgram program address =
        (m.loadProgram program address).map (·.refit c) := by
      unfold loadProgram
      show (m.memory.load program address >>= _) = _
      cases m.memory.load program address <;> rfl
    cases result : m.loadProgram program address <;>
      simp only [answer, loaded, result, Except.map, and_self]
  | step =>
    obtain ⟨machine, fault⟩ := step_refit suits
    exact ⟨machine, congrArg (Option.map Failure.fault) fault⟩
  | setKey key pressed =>
    have set : (m.refit c).setKey key pressed = (m.setKey key pressed).map (·.refit c) := by
      unfold setKey
      show (m.keypad.set key pressed >>= _) = _
      cases m.keypad.set key pressed <;> rfl
    cases result : m.setKey key pressed <;>
      simp only [answer, set, result, Except.map, and_self]
  | setDialect dialect =>
    refine ⟨?_, rfl⟩
    show { m.refit c with dialect := dialect } = { m with dialect := dialect }.refit c
    have same : c.dialect dialect = dialect := suits
    simp only [refit, same]
  | reset | tick => exact ⟨rfl, rfl⟩

theorem after_refit (m : Machine) {operations : List Operation}
    (suits : ∀ met operation, (met, operation) ∈ m.past operations → met.Suits c operation) :
    (m.refit c).after operations = (m.after operations).refit c := by
  induction operations generalizing m with
  | nil => rfl
  | cons operation rest ih =>
    have now : m.Suits c operation :=
      suits m operation (List.mem_append_right _ (List.mem_singleton_self _))
    show ((m.refit c).answer operation).machine.after rest = _
    rw [(answer_refit now).1]
    exact ih _ fun met o h => suits met o (List.mem_append_left _ h)

end Machine

end Chip8
