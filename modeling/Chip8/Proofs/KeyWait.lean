import Chip8.Proofs.Countdown

/-! The wait for a key. A machine that waits rests until a key has gone from released to pressed,
whatever its host does in the meantime. The latest such key ends the wait at the next step, unless
there is no place to go on. -/

namespace Chip8

namespace Keypad

/-- The key that a change of the keypad takes from released to pressed. -/
def pressed? (k k' : Keypad) : Option (Fin Layout.keyCount) :=
  (List.finRange Layout.keyCount).find? fun key => !k.down.get key && k'.down.get key

variable {k k' : Keypad} {key : Fin Layout.keyCount} {pressed : Bool}

theorem of_pressed? (h : k.pressed? k' = some key) :
    k.down.get key = false ∧ k'.down.get key = true := by
  simpa using List.find?_some h

theorem pressed?_of_down (h : k'.down = k.down) : k.pressed? k' = none := by
  simp [pressed?, h]

theorem down_put (k : Keypad) (key other : Fin Layout.keyCount) (pressed : Bool) :
    (k.put key pressed).down.get other = if key = other then pressed else k.down.get other := by
  simp only [Fin.ext_iff]
  exact Vector.getElem_set key.isLt other.isLt

theorem of_pressed?_put {other : Fin Layout.keyCount}
    (h : k.pressed? (k.put key pressed) = some other) :
    other = key ∧ pressed = true ∧ k.down.get key = false := by
  obtain ⟨released, down⟩ := of_pressed? h
  rw [down_put] at down
  split at down
  · next same => exact ⟨same.symm, down, same ▸ released⟩
  · rw [released] at down
    cases down

theorem pressed?_put_of_released (released : k.down.get key = false) :
    k.pressed? (k.put key true) = some key := by
  cases found : k.pressed? (k.put key true) with
  | none =>
    have unpressed := List.find?_eq_none.mp found key (List.mem_finRange key)
    rw [down_put, if_pos rfl, released] at unpressed
    exact absurd rfl unpressed
  | some other =>
    obtain ⟨rfl, _⟩ := of_pressed?_put found
    rfl

/-- The latch takes note of every press. -/
theorem latch_put (k : Keypad) (key : Fin Layout.keyCount) (pressed : Bool) :
    (k.put key pressed).latch = (k.pressed? (k.put key pressed)).or k.latch := by
  cases found : k.pressed? (k.put key pressed) with
  | none =>
    have unpressed := List.find?_eq_none.mp found key (List.mem_finRange key)
    rw [down_put, if_pos rfl, Bool.and_comm] at unpressed
    exact if_neg unpressed
  | some other =>
    obtain ⟨rfl, rfl, released⟩ := of_pressed?_put found
    have raised : (true && !k.down.get other) = true := by simp [released]
    exact if_pos raised

theorem of_set {key : Int} (h : k.set key pressed = .ok k') :
    ∃ named : Fin Layout.keyCount, key = named.val ∧ k' = k.put named pressed := by
  unfold set at h
  split at h
  · next named => exact ⟨_, (Int.toNat_of_nonneg named.1).symm, (Except.ok.inj h).symm⟩
  · cases h

theorem set_key (k : Keypad) (key : Fin Layout.keyCount) (pressed : Bool) :
    k.set key pressed = .ok (k.put key pressed) := by
  have inside : 0 ≤ (key.val : Int) ∧ (key.val : Int) < Layout.keyCount :=
    ⟨Int.natCast_nonneg _, Int.ofNat_lt.mpr key.isLt⟩
  exact dif_pos inside

end Keypad

namespace Machine

variable {m : Machine} {x : Register} {operations : List Operation}

/-- The key that an operation takes from released to pressed. -/
def pressed? (moment : Machine × Operation) : Option (Fin Layout.keyCount) :=
  moment.1.keypad.pressed? (moment.1.answer moment.2).machine.keypad

/-- The latest key that went from released to pressed. -/
def lastPress (past : List (Machine × Operation)) : Option (Fin Layout.keyCount) :=
  past.findSome? pressed?

theorem lastPress_concat (m : Machine) (operations : List Operation) (last : Operation) :
    lastPress (m.past (operations ++ [last])) =
      (pressed? (m.after operations, last)).or (lastPress (m.past operations)) := by
  rw [past_concat, lastPress, List.findSome?_cons]
  cases pressed? (m.after operations, last) <;> rfl

theorem lastPress_of_append {before rest : List Operation}
    (h : lastPress (m.past (before ++ rest)) = none) : lastPress (m.past before) = none := by
  rw [lastPress, past_append, List.findSome?_append, Option.or_eq_none_iff] at h
  exact h.2

/-! ## Keys -/

theorem keypad_setKey (m : Machine) (key : Int) (pressed : Bool) :
    let keypad := (m.answer (.setKey key pressed)).machine.keypad
    keypad = m.keypad ∨ ∃ named : Fin Layout.keyCount,
      key = named.val ∧ keypad = m.keypad.put named pressed := by
  cases set : m.setKey key pressed with
  | ok m' =>
    obtain ⟨keypad, put, rfl⟩ := of_setKey set
    obtain ⟨named, same, rfl⟩ := Keypad.of_set put
    exact .inr ⟨named, same, by simp only [answer, set]⟩
  | error failure => exact .inl (by simp only [answer, set])

theorem down_step (m : Machine) : m.step.machine.keypad.down = m.keypad.down := by
  cases h : m.upcoming? with
  | none => exact (frame_of_idle h).down
  | some i => exact (frame_of_upcoming h).down

/-- A key moves by its own events and in no other way. -/
theorem down_answer (m : Machine) {operation : Operation} (on : operation.continues) :
    let keypad := (m.answer operation).machine.keypad
    keypad.down = m.keypad.down ∨ ∃ (key : Fin Layout.keyCount) (pressed : Bool),
      operation = .setKey key pressed ∧ keypad = m.keypad.put key pressed := by
  cases operation with
  | load | reset => cases on
  | step => exact .inl m.down_step
  | tick | setDialect => exact .inl rfl
  | setKey number pressed =>
    rcases m.keypad_setKey number pressed with kept | ⟨key, rfl, put⟩
    · exact .inl (congrArg Keypad.down kept)
    · exact .inr ⟨key, pressed, rfl, put⟩

theorem of_pressed? {operation : Operation} (on : operation.continues) {key : Fin Layout.keyCount}
    (h : pressed? (m, operation) = some key) :
    operation = .setKey key true ∧ m.keypad.down.get key = false := by
  simp only [pressed?] at h
  rcases m.down_answer on with kept | ⟨named, pressed, rfl, put⟩
  · rw [Keypad.pressed?_of_down kept] at h
    cases h
  · rw [put] at h
    obtain ⟨rfl, rfl, released⟩ := Keypad.of_pressed?_put h
    exact ⟨rfl, released⟩

theorem pressed?_of_released {key : Fin Layout.keyCount} (released : m.keypad.down.get key = false) :
    pressed? (m, .setKey key true) = some key := by
  have put : (m.answer (.setKey key true)).machine.keypad = m.keypad.put key true := by
    simp only [answer, setKey, Keypad.set_key]
    rfl
  simp only [pressed?, put]
  exact Keypad.pressed?_put_of_released released

/-- A key that is down stays down until it is released. -/
theorem released_of_down {key : Fin Layout.keyCount} (held : m.keypad.down.get key = true)
    (on : ∀ operation ∈ operations, operation.continues)
    (up : (m.after operations).keypad.down.get key = false) : .setKey key false ∈ operations := by
  induction operations generalizing m with
  | nil =>
    have same : m.after [] = m := rfl
    rw [same, held] at up
    cases up
  | cons operation rest ih =>
    obtain ⟨now, later⟩ := List.forall_mem_cons.mp on
    -- The first operation that leaves the key up is the release.
    cases down : (m.answer operation).machine.keypad.down.get key with
    | true => exact List.mem_cons_of_mem _ (ih down later up)
    | false =>
      rcases m.down_answer now with kept | ⟨named, pressed, rfl, put⟩
      · rw [kept, held] at down
        cases down
      · rw [put, Keypad.down_put] at down
        split at down
        · next same => exact List.mem_cons.mpr (.inl (by rw [down, same]))
        · rw [held] at down
          cases down

/-- A key that was held when a history began has been released before its press. -/
theorem released_of_lastPress {key : Fin Layout.keyCount} (held : m.keypad.down.get key = true)
    (on : ∀ operation ∈ operations, operation.continues)
    (latest : lastPress (m.past operations) = some key) :
    ∃ before rest, operations = before ++ .setKey key true :: rest ∧
      .setKey key false ∈ before := by
  obtain ⟨⟨met, operation⟩, moment, pressed⟩ := List.exists_of_findSome?_eq_some latest
  obtain ⟨before, rest, rfl, rfl⟩ := of_mem_past moment
  obtain ⟨earlier, now, _⟩ := by simpa only [List.forall_mem_append, List.forall_mem_cons] using on
  obtain ⟨rfl, up⟩ := of_pressed? now pressed
  exact ⟨before, rest, rfl, released_of_down held earlier up⟩

/-! ## A wait -/

/-- A step of a machine that waits without a press, or without a place to go on. -/
theorem step_of_resting (phase : m.phase = .awaitingKey)
    (resting : m.keypad.latch = none ∨ ¬ isTarget (m.pc + 2) = true) : m.step.machine = m := by
  cases latch : m.keypad.latch with
  | none => rw [step_of_unpressed phase latch]
  | some key =>
    have nowhere := resting.resolve_left (by simp [latch])
    rw [step_of_stuck phase latch nowhere]

/-- Two machines differ in nothing but their keys, timers and dialects. -/
def Still (m m' : Machine) : Prop :=
  m' = { m with keypad := m'.keypad, timers := m'.timers, dialect := m'.dialect }

theorem Still.trans {m₁ m₂ m₃ : Machine} (h : m₁.Still m₂) (h' : m₂.Still m₃) : m₁.Still m₃ := by
  rw [Still, h', h]

theorem Still.phase {m' : Machine} (h : m.Still m') : m'.phase = m.phase :=
  congrArg (fun m => m.phase) h

theorem Still.pc {m' : Machine} (h : m.Still m') : m'.pc = m.pc := congrArg (fun m => m.pc) h

/-- What goes on while a machine waits. -/
structure Waits (m : Machine) (operations : List Operation) : Prop where
  still : m.Still (m.after operations)
  latch : (m.after operations).keypad.latch = lastPress (m.past operations)
  timers : ∀ t, ((m.after operations).timers.value t).toNat =
    (m.timers.value t).toNat - operations.countP Operation.isTick

theorem waits_nil (latch : m.keypad.latch = none) : m.Waits [] where
  still := rfl
  latch := latch
  timers _ := rfl

theorem still_answer (phase : m.phase = .awaitingKey) {operation : Operation}
    (on : operation.continues)
    (resting : operation = .step → m.keypad.latch = none ∨ ¬ isTarget (m.pc + 2) = true) :
    m.Still (m.answer operation).machine := by
  cases operation with
  | load | reset => cases on
  | step =>
    have same : (m.answer .step).machine = m := step_of_resting phase (resting rfl)
    rw [same]
    rfl
  | tick | setDialect => rfl
  | setKey key pressed =>
    obtain ⟨keypad, answered⟩ := m.answer_setKey key pressed
    rw [answered]
    rfl

theorem latch_answer (phase : m.phase = .awaitingKey) {operation : Operation}
    (on : operation.continues) : (m.answer operation).machine.keypad.latch =
      (pressed? (m, operation)).or m.keypad.latch := by
  cases operation with
  | load | reset => cases on
  | step =>
    have frame := frame_of_idle (upcoming?_of_awaitingKey phase)
    have unpressed : pressed? (m, .step) = none := Keypad.pressed?_of_down frame.down
    rw [unpressed]
    exact frame.latch
  | tick | setDialect =>
    simp only [pressed?, answer, tick]
    rw [Keypad.pressed?_of_down rfl]
    rfl
  | setKey key pressed =>
    simp only [pressed?]
    rcases m.keypad_setKey key pressed with kept | ⟨named, rfl, put⟩
    · rw [kept, Keypad.pressed?_of_down rfl]
      rfl
    · rw [put]
      exact m.keypad.latch_put named pressed

theorem timers_answer (phase : m.phase = .awaitingKey) {operation : Operation}
    (on : operation.continues) (t : Timer) : ((m.answer operation).machine.timers.value t).toNat =
      (m.timers.value t).toNat - if operation.isTick then 1 else 0 := by
  have unloaded : loadedAt? t (m, operation) = none := by
    cases operation with
    | step => rw [loadedAt?, upcoming?_of_awaitingKey phase]; rfl
    | _ => rfl
  rw [m.value_answer on t, unloaded]

theorem Waits.concat (waits : m.Waits operations) (phase : m.phase = .awaitingKey) {last : Operation}
    (on : last.continues)
    (resting : last = .step → lastPress (m.past operations) = none ∨ ¬ isTarget (m.pc + 2) = true) :
    m.Waits (operations ++ [last]) := by
  have phase' := waits.still.phase.trans phase
  rw [← waits.latch, ← waits.still.pc] at resting
  refine { still := ?_, latch := ?_, timers := fun t => ?_ }
  · rw [after_concat]
    exact waits.still.trans (still_answer phase' on resting)
  · rw [after_concat, lastPress_concat, latch_answer phase' on, waits.latch]
  · rw [after_concat, timers_answer phase' on, waits.timers, List.countP_append, List.countP_singleton]
    omega

/-- A wait goes on as long as no step meets a press, or for ever if there is no place to go on. -/
theorem waits_of_resting (phase : m.phase = .awaitingKey) (unpressed : m.keypad.latch = none)
    (on : ∀ operation ∈ operations, operation.continues)
    (resting : ∀ before rest, operations = before ++ .step :: rest →
      lastPress (m.past before) = none ∨ ¬ isTarget (m.pc + 2) = true) : m.Waits operations := by
  induction operations using List.reverseRecOn with
  | nil => exact waits_nil unpressed
  | append_singleton operations last ih =>
    obtain ⟨earlier, latest⟩ := List.forall_mem_append.mp on
    -- A step in the earlier part of the history is a step in the whole of it.
    refine (ih earlier ?_).concat phase (latest last (by simp)) ?_
    · rintro before rest rfl
      exact resting before (rest ++ [last]) (by simp)
    · rintro rfl
      exact resting operations [] rfl

theorem waits_of_unpressed (phase : m.phase = .awaitingKey) (unpressed : m.keypad.latch = none)
    (on : ∀ operation ∈ operations, operation.continues)
    (h : lastPress (m.past operations) = none) : m.Waits operations := by
  refine waits_of_resting phase unpressed on ?_
  rintro before rest rfl
  exact .inl (lastPress_of_append h)

/-! ## The end of a wait -/

/-- The step that begins a wait forgets earlier presses and stays where it is. -/
theorem step_of_awaitKey (asked : m.upcoming? = some (.awaitKey x)) (done : m.step.fault = none) :
    isTarget m.pc = true ∧ ∃ opcode, m.step.machine =
      { (m.fetched opcode).awaitKey x with pc := m.pc, executed := m.executed + 1 } := by
  obtain ⟨_, opcode, _, step⟩ := of_upcoming? asked
  obtain ⟨machine, fault⟩ := perform_of_ok (m := m.fetched opcode) (i := .awaitKey x) rfl
  rw [step, fault] at done
  rw [step, machine]
  by_cases here : isTarget m.pc = true
  · exact ⟨here, opcode, if_pos here⟩
  · exact absurd (done.symm.trans (if_neg here)) nofun

theorem Waits.step_of_unpressed (waits : m.Waits operations) (phase : m.phase = .awaitingKey)
    (unpressed : lastPress (m.past operations) = none) :
    (m.after operations).step = { machine := m.after operations } := by
  rw [Machine.step_of_unpressed (waits.still.phase.trans phase) (waits.latch.trans unpressed)]

theorem Waits.step_of_pressed (waits : m.Waits operations) (phase : m.phase = .awaitingKey)
    {key : Fin Layout.keyCount} (latest : lastPress (m.past operations) = some key)
    (target : isTarget (m.pc + 2) = true) :
    let m' := m.after operations
    m'.step = { machine := { m.setV m.keyRegister (UInt8.ofNat key) with
      phase := .running
      pc := m.pc + 2
      executed := m.executed + 1
      keypad := m'.keypad
      timers := m'.timers
      dialect := m'.dialect } } := by
  intro m'
  rw [Machine.step_of_pressed (waits.still.phase.trans phase) (waits.latch.trans latest)
    (waits.still.pc ▸ target)]
  -- Where a machine takes a key depends on nothing that a wait may change.
  let taken (m : Machine) : Outcome := { machine := { m.setV m.keyRegister (UInt8.ofNat key) with
    phase := .running
    pc := m.pc + 2
    executed := m.executed + 1 } }
  exact congrArg taken waits.still

theorem Waits.step_of_stuck (waits : m.Waits operations) (phase : m.phase = .awaitingKey)
    {key : Fin Layout.keyCount} (latest : lastPress (m.past operations) = some key)
    (nowhere : ¬ isTarget (m.pc + 2) = true) :
    let m' := m.after operations
    m'.step = { machine := m', fault := some (.badTarget (m'.pc + 2) m'.origin) } := by
  rw [← waits.still.pc] at nowhere
  intro m'
  rw [Machine.step_of_stuck (waits.still.phase.trans phase) (waits.latch.trans latest) nowhere]

/-- How a wait for a key stands after some operations: it began with the machine `w` at the address
`p`, and the key goes into the register `x`. -/
structure KeyWait (p : Int) (x : Register) (w : Machine) (operations : List Operation) : Prop where
  /-- A press is an event of a key that is up. -/
  presses : ∀ before operation rest key, operations = before ++ operation :: rest →
    (pressed? (w.after before, operation) = some key ↔
      operation = .setKey key true ∧ (w.after before).keypad.down.get key = false)
  /-- Without a press the machine waits on, and only keys, timers and dialect have changed. -/
  rests : lastPress (w.past operations) = none →
    let m := w.after operations
    m.step = { machine := m } ∧
      m = { w with
        pc := p
        phase := .awaitingKey
        keypad := m.keypad
        timers := m.timers
        dialect := m.dialect } ∧
      ∀ t, (m.timers.value t).toNat = (w.timers.value t).toNat - operations.countP Operation.isTick
  /-- The first step after a press takes the key that was pressed last. -/
  ends : p ≤ 0xFFC → ∀ key, lastPress (w.past operations) = some key →
    (∀ before rest, operations = before ++ .step :: rest → lastPress (w.past before) = none) →
    let m := w.after operations
    m.step = { machine := { w.setV x (UInt8.ofNat key) with
      phase := .running
      pc := p + 2
      executed := w.executed + 1
      keypad := m.keypad
      timers := m.timers
      dialect := m.dialect } }
  /-- At the end of memory there is no place to go on. -/
  stuck : p = 0xFFE → lastPress (w.past operations) ≠ none →
    let m := w.after operations
    m.phase = .awaitingKey ∧ m.step.machine = m ∧ m.step.fault.map Fault.kind = some .memory
  /-- A key that was held from the beginning counts only after a release. -/
  held : ∀ key, w.keypad.down.get key = true → lastPress (w.past operations) = some key →
    ∃ before rest, operations = before ++ .setKey key true :: rest ∧ .setKey key false ∈ before

/-- A wait for a key keeps its protocol, however steps, ticks and keys come in between. -/
theorem key_wait (asked : m.upcoming? = some (.awaitKey x)) (done : m.step.fault = none)
    (on : ∀ operation ∈ operations, operation.continues) :
    KeyWait m.pc x m.step.machine operations := by
  obtain ⟨here, opcode, begun⟩ := step_of_awaitKey asked done
  generalize m.step.machine = w at begun
  have phase : w.phase = .awaitingKey := by rw [begun]; rfl
  have latch : w.keypad.latch = none := by rw [begun]; rfl
  have pc : w.pc = m.pc := by rw [begun]
  have register : w.keyRegister = x := by rw [begun]; rfl
  rw [← pc] at here
  rw [← pc, ← register]
  refine { presses := ?_, rests := ?_, ends := ?_, stuck := ?_, held := ?_ }
  · rintro before operation rest key rfl
    refine ⟨of_pressed? (on operation (by simp)), ?_⟩
    rintro ⟨rfl, released⟩
    exact pressed?_of_released released
  · intro unpressed w'
    have waits := waits_of_unpressed phase latch on unpressed
    refine ⟨waits.step_of_unpressed phase unpressed, ?_, waits.timers⟩
    rw [← phase]
    exact waits.still
  · intro room key latest first
    have target : isTarget (w.pc + 2) = true := (isTarget_add_two here).mpr (by omega)
    have waits : w.Waits operations :=
      waits_of_resting phase latch on fun before rest split => .inl (first before rest split)
    exact waits.step_of_pressed phase latest target
  · intro last pressed w'
    have nowhere : ¬ isTarget (w.pc + 2) = true := fun target =>
      (isTarget_add_two here).mp target last
    have waits : w.Waits operations := waits_of_resting phase latch on fun _ _ _ => .inr nowhere
    obtain ⟨key, latest⟩ := Option.ne_none_iff_exists'.mp pressed
    rw [waits.step_of_stuck phase latest nowhere]
    exact ⟨waits.still.phase.trans phase, rfl, rfl⟩
  · intro key held latest
    exact released_of_lastPress held on latest

/-- A key that goes down and up again between two steps ends a wait. -/
theorem key_wait_released :
    let m := { new {} false false (.cycle []) with
      memory := (Memory.zeros 0x1000).putAll 0x200 [0xF0, 0x0A] }
    let operations : List Operation := [.setKey 3 true, .tick, .setKey 3 false]
    m.upcoming? = some (.awaitKey 0) ∧ m.step.fault = none ∧
      (∀ operation ∈ operations, operation.continues) ∧
      (m.step.machine.after operations).step.machine.getV 0 = 3 := by
  intro m operations
  have asked : m.upcoming? = some (.awaitKey 0) := by decide +kernel
  have done : m.step.fault = none := by decide +kernel
  have on : ∀ operation ∈ operations, operation.continues := by decide
  have wait := key_wait asked done on
  have latest : lastPress (m.step.machine.past operations) = some ⟨3, by decide⟩ := by decide +kernel
  have first : ∀ before rest, operations = before ++ .step :: rest →
      lastPress (m.step.machine.past before) = none := by
    intro before rest split
    have stepped : Operation.step ∈ operations := by simp [split]
    simp [operations] at stepped
  refine ⟨asked, done, on, ?_⟩
  have ends := wait.ends (by decide) _ latest first
  generalize m.step.machine = w at ends
  rw [ends]
  exact w.getV_setV_self 0 3

end Machine

end Chip8
