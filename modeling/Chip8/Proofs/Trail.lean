import Chip8.Proofs.History
import Chip8.Scheduler.Run

/-! The trail of a scheduler, at whatever kind of time. A host lets time pass, pauses, resumes, makes
steps by hand and operates the machine, in any order, and carries on after a failure or a wish to
quit, or ends there. All that follows from it is a row of small actions, each taken only when the
scheduler admits it; so what every action keeps, every run keeps. Nothing here asks what time is. -/

namespace Chip8

/-- A single thing that a scheduler does. -/
inductive Action (τ : Type) where
  /-- Adds elapsed time to the clocks. -/
  | charge (elapsed : τ)
  /-- An instruction that the instruction clock owes. -/
  | instruction
  /-- A frame takes its interval from the clock. -/
  | begin
  | poll
  /-- Takes the commands from the inputs. -/
  | collect
  | pause
  | resume
  /-- An operation by hand: a step that was asked for, or what the host does by itself. -/
  | operate (operation : Operation)
  | tick
  | buzzer
  | render
  /-- Counts a frame, which is complete with it. -/
  | count
  /-- A step by hand is complete. -/
  | finish
  | rest
  deriving DecidableEq

/-- What a host may do with a scheduler and its machine. -/
inductive Move (τ : Type) where
  | advance (elapsed : τ)
  | pause
  | resume
  | singleStep
  | obey (command : HostCommand)
  | operate (operation : Operation)
  | rest
  deriving DecidableEq

/-- Moves that let time pass. -/
def Move.advances {τ : Type} : Move τ → Bool
  | advance _ => true
  | pause | resume | singleStep | obey _ | operate _ | rest => false

namespace Scheduler

variable {τ ι : Type}

/-! ## Actions -/

/-- Performs an operation on the machine; what it prints goes to the host. -/
def operate (s : Scheduler τ ι) (operation : Operation) : Scheduler τ ι :=
  let answer := s.machine.answer operation
  let s := { s with machine := answer.machine }
  match answer.trace with
  | some line => s.call (.print line)
  | none => s

theorem stepMachine_eq (s : Scheduler τ ι) : s.stepMachine =
    (s.operate .step, match s.machine.step.fault with
      | some fault => .error fault
      | none => .ok ()) := by
  unfold stepMachine operate Machine.answer
  dsimp only
  cases s.machine.step.trace <;> cases s.machine.step.fault <;> rfl

theorem dirty_render (s : Scheduler τ ι) : s.render.machine.display.dirty = false := by
  unfold render
  dsimp only
  split
  · split <;> rfl
  · rfl

theorem frames_operate (s : Scheduler τ ι) (operation : Operation) :
    (s.operate operation).frames = s.frames := by
  unfold operate
  dsimp only
  split <;> rfl

theorem frames_render (s : Scheduler τ ι) : s.render.frames = s.frames := by
  unfold render
  dsimp only
  split
  · split <;> rfl
  · rfl

/-! ## Actions that leave the clocks alone -/

/-- Two schedulers agree on their clocks. -/
structure SameClocks (s s' : Scheduler τ ι) : Prop where
  speed : s'.speed = s.speed
  core : s'.core = s.core
  timer : s'.timer = s.timer
  paused : s'.paused = s.paused

theorem sameClocks_operate (s : Scheduler τ ι) (operation : Operation) :
    s.SameClocks (s.operate operation) := by
  unfold operate
  dsimp only
  split <;> exact ⟨rfl, rfl, rfl, rfl⟩

theorem sameClocks_updateBuzzer (s : Scheduler τ ι) : s.SameClocks s.updateBuzzer := by
  unfold updateBuzzer
  dsimp only
  split <;> exact ⟨rfl, rfl, rfl, rfl⟩

theorem sameClocks_render (s : Scheduler τ ι) : s.SameClocks s.render := by
  unfold render
  dsimp only
  split
  · split <;> exact ⟨rfl, rfl, rfl, rfl⟩
  · exact ⟨rfl, rfl, rfl, rfl⟩

theorem sameClocks_countFrame (s : Scheduler τ ι) : s.SameClocks s.countFrame := by
  unfold countFrame
  dsimp only
  split <;> exact ⟨rfl, rfl, rfl, rfl⟩

theorem sameClocks_rest [Sub τ] [LT τ] [DecidableLT τ] [TimeLine τ] (s : Scheduler τ ι) :
    s.SameClocks s.rest := by
  unfold rest
  dsimp only
  split <;> exact ⟨rfl, rfl, rfl, rfl⟩

/-! ## New schedulers -/

variable [TimeLine τ]

theorem new_eq_ok (machine : Machine) (inputs : ι) {speed : Int} (paused : Bool)
    (positive : 0 < speed) (held : TimeLine.holds τ speed.toNat = true) :
    new machine inputs speed paused = .ok (report (τ := τ)
      { machine, inputs, speed := speed.toNat, core := TimeLine.zero, timer := TimeLine.zero,
        paused } 0 0) := by
  unfold new
  rw [if_neg (Int.not_le.mpr positive), held]
  rfl

theorem eq_of_new {s : Scheduler τ ι} {machine : Machine} {inputs : ι} {speed : Int} {paused : Bool}
    (built : new machine inputs speed paused = .ok s) : 0 < speed ∧ s = report
      { machine, inputs, speed := speed.toNat, core := TimeLine.zero, timer := TimeLine.zero,
        paused } 0 0 := by
  unfold new at built
  split at built
  · cases built
  · next positive =>
    split at built
    · cases built
    · exact ⟨Int.not_le.mp positive, (Except.ok.inj built).symm⟩

section Inputs

variable [InputDevice ι]

/-- The scheduler whose inputs have been polled. -/
def polled (s : Scheduler τ ι) : Scheduler τ ι :=
  let poll := InputDevice.poll s.inputs s.machine.keypad
  { s with
    inputs := poll.device
    machine := { s.machine with keypad := poll.keypad } }

/-- Whether a poll asks to quit. -/
def pollResult (s : Scheduler τ ι) : Except Failure Bool :=
  (InputDevice.poll s.inputs s.machine.keypad).result

/-- The scheduler without the commands that have gathered. -/
def collected (s : Scheduler τ ι) : Scheduler τ ι :=
  { s with inputs := (InputDevice.takeCommands s.inputs).2 }

def commands (s : Scheduler τ ι) : List HostCommand := (InputDevice.takeCommands s.inputs).1

variable {s s' : Scheduler τ ι} {failure : Failure}

theorem frame_of_error (h : s.pollResult = .error failure) : s.frame = (s.polled, .error failure) := by
  have h : (InputDevice.poll s.inputs s.machine.keypad).result = .error failure := h
  simp only [frame, h]
  rfl

theorem frame_of_quit (h : s.pollResult = .ok true) : s.frame = (s.polled, .ok true) := by
  have h : (InputDevice.poll s.inputs s.machine.keypad).result = .ok true := h
  simp only [frame, h]
  rfl

theorem frame_of_disobeyed (h : s.pollResult = .ok false)
    (failed : s.polled.collected.obeyAll s.polled.commands = (s', .error failure)) :
    s.frame = (s', .error failure) := by
  have h : (InputDevice.poll s.inputs s.machine.keypad).result = .ok false := h
  unfold polled collected commands at failed
  simp only [frame, h, failed]

theorem frame_of_obeyed (h : s.pollResult = .ok false)
    (done : s.polled.collected.obeyAll s.polled.commands = (s', .ok ())) :
    s.frame = (s'.finishFrame, .ok false) := by
  have h : (InputDevice.poll s.inputs s.machine.keypad).result = .ok false := h
  unfold polled collected commands at done
  simp only [frame, h, done]

end Inputs

variable [Add τ] [Sub τ] [LE τ] [LT τ] [DecidableLE τ] [DecidableLT τ] [InputDevice ι]

/-- What an action makes of a scheduler. -/
def take (s : Scheduler τ ι) : Action τ → Scheduler τ ι
  | .charge elapsed => s.charge elapsed
  | .instruction => (s.spend .instruction).operate .step
  | .begin => s.spend .frame
  | .poll => s.polled
  | .collect => s.collected
  | .pause => s.pause
  | .resume => s.resume
  | .operate operation => s.operate operation
  | .tick => { s with machine := s.machine.tick }
  | .buzzer => s.updateBuzzer
  | .render => s.render
  | .count => s.countFrame
  | .finish => s
  | .rest => s.rest

def takeAll (s : Scheduler τ ι) (actions : List (Action τ)) : Scheduler τ ι := actions.foldl take s

/-- Whether a scheduler may take an action: an instruction and a frame have to be due, and nothing is
complete before the picture is shown. -/
def Admits (s : Scheduler τ ι) : Action τ → Prop
  | .instruction => s.coreDue = true
  | .begin => s.frameDue = true
  | .count | .finish => s.machine.display.dirty = false
  | _ => True

/-- One scheduler becomes another by actions that are admitted where they are taken. -/
inductive Path : Scheduler τ ι → List (Action τ) → Scheduler τ ι → Prop
  | nil (s : Scheduler τ ι) : Path s [] s
  | cons {s s' : Scheduler τ ι} {a : Action τ} {rest : List (Action τ)} (admitted : s.Admits a)
      (path : Path (s.take a) rest s') : Path s (a :: rest) s'

/-- Actions in order, each with the scheduler that takes it. -/
def along (s : Scheduler τ ι) : List (Action τ) → List (Scheduler τ ι × Action τ)
  | [] => []
  | a :: rest => (s, a) :: (s.take a).along rest

/-! ## The actions of a run -/

def singleStepActions (s : Scheduler τ ι) : List (Action τ) :=
  .operate .step :: match s.stepMachine with
    | (_, .ok ()) => [.render, .finish]
    | (_, .error _) => []

def obeyActions (s : Scheduler τ ι) : HostCommand → List (Action τ)
  | .togglePause => if s.paused then [.resume] else [.pause]
  | .step => if s.paused then s.singleStepActions else []

def obeyAllActions (s : Scheduler τ ι) : List HostCommand → List (Action τ)
  | [] => []
  | c :: rest => s.obeyActions c ++ match s.obey c with
    | (s, .ok ()) => s.obeyAllActions rest
    | (_, .error _) => []

def finishActions : List (Action τ) := [.tick, .buzzer, .render, .count]

def frameActions (s : Scheduler τ ι) : List (Action τ) :=
  .poll :: match s.pollResult with
    | .error _ | .ok true => []
    | .ok false =>
      let s := s.polled
      .collect :: s.collected.obeyAllActions s.commands ++
        match s.collected.obeyAll s.commands with
        | (_, .ok ()) => finishActions
        | (_, .error _) => []

def performActions (s : Scheduler τ ι) : Event → List (Action τ)
  | .frame => .begin :: (s.take .begin).frameActions
  | .instruction => [.instruction]

def payOutActions : Nat → Scheduler τ ι → List (Action τ)
  | 0, _ => []
  | fuel + 1, s =>
    match s.dueEvent with
    | none => []
    | some event => s.performActions event ++ match s.perform event with
      | (s, .ok false) => s.payOutActions fuel
      | _ => []

def moveActions (s : Scheduler τ ι) : Move τ → List (Action τ)
  | .advance elapsed =>
    let s := s.charge elapsed
    .charge elapsed :: s.payOutActions s.eventBound
  | .pause => [.pause]
  | .resume => [.resume]
  | .singleStep => s.singleStepActions
  | .obey c => s.obeyActions c
  | .operate operation => [.operate operation]
  | .rest => [.rest]

/-- What a move makes of a scheduler, also when it fails or the user asks to quit. -/
def move (s : Scheduler τ ι) : Move τ → Scheduler τ ι
  | .advance elapsed => (s.advance elapsed).1
  | .pause => s.pause
  | .resume => s.resume
  | .singleStep => s.singleStep.1
  | .obey c => (s.obey c).1
  | .operate operation => s.operate operation
  | .rest => s.rest

/-- Whether the user asked to quit during a move, or why it failed. What a host does with the machine
by itself is its own affair. -/
def answer (s : Scheduler τ ι) : Move τ → Except Failure Bool
  | .advance elapsed => (s.advance elapsed).2
  | .singleStep => s.singleStep.2.map fun _ => false
  | .obey c => (s.obey c).2.map fun _ => false
  | .pause | .resume | .operate _ | .rest => .ok false

def moveAll (s : Scheduler τ ι) (moves : List (Move τ)) : Scheduler τ ι := moves.foldl move s

def moveAllActions (s : Scheduler τ ι) : List (Move τ) → List (Action τ)
  | [] => []
  | m :: rest => s.moveActions m ++ (s.move m).moveAllActions rest

/-- The actions of a run, each with the scheduler that takes it. -/
def trail (s : Scheduler τ ι) (moves : List (Move τ)) : List (Scheduler τ ι × Action τ) :=
  s.along (s.moveAllActions moves)

/-! ## Every run is a path -/

variable {s s' s'' : Scheduler τ ι} {actions rest : List (Action τ)}

theorem Path.single {a : Action τ} (admitted : s.Admits a) : Path s [a] (s.take a) :=
  .cons admitted (.nil _)

theorem Path.append (path : Path s actions s') (path' : Path s' rest s'') :
    Path s (actions ++ rest) s'' := by
  induction path with
  | nil => exact path'
  | cons admitted _ ih => exact .cons admitted (ih path')

theorem path_singleStep (s : Scheduler τ ι) : Path s s.singleStepActions s.singleStep.1 := by
  rw [singleStepActions, singleStep, stepMachine_eq]
  refine .cons trivial ?_
  cases s.machine.step.fault with
  | some fault => exact .nil _
  | none => exact .cons trivial (.single (dirty_render _))

theorem path_obey (s : Scheduler τ ι) (c : HostCommand) :
    Path s (s.obeyActions c) (s.obey c).1 := by
  cases c with
  | togglePause =>
    simp only [obey, obeyActions]
    split <;> exact .single trivial
  | step =>
    simp only [obey, obeyActions]
    split
    · exact s.path_singleStep
    · exact .nil s

theorem path_obeyAll (s : Scheduler τ ι) (commands : List HostCommand) :
    Path s (s.obeyAllActions commands) (s.obeyAll commands).1 := by
  induction commands generalizing s with
  | nil => exact .nil s
  | cons c rest ih =>
    have first := s.path_obey c
    rw [obeyAll, obeyAllActions]
    cases obeyed : s.obey c with
    | mk s' result =>
      rw [obeyed] at first
      cases result with
      | ok => exact first.append (ih s')
      | error => exact first.append (.nil s')

theorem path_finishFrame (s : Scheduler τ ι) : Path s finishActions s.finishFrame :=
  .cons trivial (.cons trivial (.cons trivial (.single (dirty_render _))))

theorem path_frame (s : Scheduler τ ι) : Path s s.frameActions s.frame.1 := by
  rw [frameActions]
  split
  · next failed =>
    rw [frame_of_error failed]
    exact .single trivial
  · next quit =>
    rw [frame_of_quit quit]
    exact .single trivial
  · next polled =>
    have commands := s.polled.collected.path_obeyAll s.polled.commands
    refine .cons trivial (.cons trivial ?_)
    cases obeyed : s.polled.collected.obeyAll s.polled.commands with
    | mk s' result =>
      rw [obeyed] at commands
      cases result with
      | ok =>
        rw [frame_of_obeyed polled obeyed]
        exact commands.append s'.path_finishFrame
      | error =>
        rw [frame_of_disobeyed polled obeyed]
        exact commands.append (.nil s')

omit [LE τ] [DecidableLE τ] in
theorem perform_instruction (s : Scheduler τ ι) :
    (s.perform .instruction).1 = s.take .instruction := by
  rw [perform, stepMachine_eq]
  cases (s.spend .instruction).machine.step.fault <;> rfl

theorem path_perform (s : Scheduler τ ι) {event : Event} (due : s.dueEvent = some event) :
    Path s (s.performActions event) (s.perform event).1 := by
  unfold dueEvent at due
  cases event with
  | frame =>
    have admitted : s.Admits .begin := by
      split at due
      · next chosen => exact (Bool.and_eq_true _ _ ▸ chosen).1
      · split at due <;> cases due
    exact .cons admitted (path_frame _)
  | instruction =>
    have admitted : s.Admits .instruction := by
      split at due
      · cases due
      · split at due
        · next chosen => exact chosen
        · cases due
    rw [perform_instruction]
    exact .single admitted

theorem path_payOut (fuel : Nat) (s : Scheduler τ ι) :
    Path s (s.payOutActions fuel) (s.payOut fuel).1 := by
  induction fuel generalizing s with
  | zero => exact .nil s
  | succ fuel ih =>
    rw [payOut, payOutActions]
    cases due : s.dueEvent with
    | none => exact .nil s
    | some event =>
      have first := s.path_perform due
      dsimp only
      cases performed : s.perform event with
      | mk s' result =>
        rw [performed] at first
        match result with
        | .ok false => exact first.append (ih s')
        | .ok true | .error _ => exact first.append (.nil s')

theorem path_move (s : Scheduler τ ι) (m : Move τ) : Path s (s.moveActions m) (s.move m) := by
  cases m with
  | advance elapsed => exact .cons trivial (path_payOut _ _)
  | singleStep => exact s.path_singleStep
  | obey c => exact s.path_obey c
  | pause | resume | operate | rest => exact .single trivial

theorem path_moveAll (s : Scheduler τ ι) (moves : List (Move τ)) :
    Path s (s.moveAllActions moves) (s.moveAll moves) := by
  induction moves generalizing s with
  | nil => exact .nil s
  | cons m rest ih => exact (s.path_move m).append (ih _)

/-! ## Taking the actions -/

omit [LE τ] [DecidableLE τ] in
theorem takeAll_cons (s : Scheduler τ ι) (a : Action τ) (rest : List (Action τ)) :
    s.takeAll (a :: rest) = (s.take a).takeAll rest := rfl

/-- To take the actions of a path one by one leads to its end. -/
theorem Path.takeAll_eq (path : Path s actions s') : s' = s.takeAll actions := by
  induction path with
  | nil => rfl
  | cons _ _ ih => exact ih

theorem perform_eq (s : Scheduler τ ι) (event : Event) :
    (s.perform event).1 = s.takeAll (s.performActions event) := by
  cases event with
  | frame => exact (s.take .begin).path_frame.takeAll_eq
  | instruction => exact s.perform_instruction

omit [Add τ] [Sub τ] [LE τ] [LT τ] [DecidableLE τ] [DecidableLT τ] in
/-- How far a frame comes: to its poll, or through the commands, or to its end. -/
theorem frameActions_cases (s : Scheduler τ ι) : s.frameActions = [.poll] ∨
    ∃ rest, (rest = [] ∨ rest = finishActions) ∧ s.frameActions = .poll :: .collect ::
      (s.polled.collected.obeyAllActions s.polled.commands ++ rest) := by
  rw [frameActions]
  split
  · exact .inl rfl
  · exact .inl rfl
  · refine .inr ⟨_, ?_, rfl⟩
    split
    · exact .inr rfl
    · exact .inl rfl

/-! ## What every action keeps -/

/-- What an admitted action keeps, whatever has been done before it, every path keeps. -/
theorem Path.keeps {I : List (Scheduler τ ι × Action τ) → Scheduler τ ι → Prop}
    (kept : ∀ past s a, I past s → s.Admits a → I (past ++ [(s, a)]) (s.take a))
    (path : Path s actions s') {past : List (Scheduler τ ι × Action τ)} (h : I past s) :
    I (past ++ s.along actions) s' := by
  induction path generalizing past with
  | nil =>
    rw [along, List.append_nil]
    exact h
  | cons admitted _ ih =>
    have next := ih (kept _ _ _ h admitted)
    rw [List.append_assoc, List.singleton_append] at next
    exact next

/-- What holds of a scheduler before its run, and is kept by every admitted action, holds of the
whole trail and of the scheduler at its end. -/
theorem trail_induction {I : List (Scheduler τ ι × Action τ) → Scheduler τ ι → Prop}
    (kept : ∀ past s a, I past s → s.Admits a → I (past ++ [(s, a)]) (s.take a)) (h : I [] s)
    (moves : List (Move τ)) : I (s.trail moves) (s.moveAll moves) :=
  (s.path_moveAll moves).keeps kept h

/-! ## Moves up to the first that stops -/

/-- Moves in order, up to the first that fails or quits. -/
def attempt (s : Scheduler τ ι) : List (Move τ) → Scheduler τ ι × Except Failure Bool
  | [] => (s, .ok false)
  | m :: rest =>
    match s.answer m with
    | .ok false => (s.move m).attempt rest
    | stopped => (s.move m, stopped)

/-- What is done then, each action with the move that it is part of. -/
def record (s : Scheduler τ ι) : List (Move τ) → List (Move τ × Action τ)
  | [] => []
  | m :: rest => (s.moveActions m).map (m, ·) ++ match s.answer m with
    | .ok false => (s.move m).record rest
    | _ => []

def recorded (s : Scheduler τ ι) (moves : List (Move τ)) : List (Action τ) :=
  (s.record moves).map Prod.snd

variable {m : Move τ} {moves : List (Move τ)}

/-- A row of moves goes on behind a move that ends well, and ends with any other. -/
theorem attempt_cons (later : List (Move τ)) (well : s.answer m = .ok false) :
    s.attempt (m :: later) = (s.move m).attempt later ∧
      s.record (m :: later) = (s.moveActions m).map (m, ·) ++ (s.move m).record later := by
  simp only [attempt, record, well, and_self]

theorem attempt_cons_of_stopped (later : List (Move τ)) (stops : s.answer m ≠ .ok false) :
    s.attempt (m :: later) = (s.move m, s.answer m) ∧
      s.record (m :: later) = (s.moveActions m).map (m, ·) := by
  rw [attempt, record]
  cases answer : s.answer m with
  | error failure => exact ⟨rfl, List.append_nil _⟩
  | ok quit =>
    cases quit with
    | true => exact ⟨rfl, List.append_nil _⟩
    | false => exact absurd answer stops

theorem well_of_attempt {later : List (Move τ)} (smooth : (s.attempt (m :: later)).2 = .ok false) :
    s.answer m = .ok false := by
  by_cases well : s.answer m = .ok false
  · exact well
  · rw [(attempt_cons_of_stopped later well).1] at smooth
    exact smooth

theorem recorded_cons (later : List (Move τ)) (well : s.answer m = .ok false) :
    s.recorded (m :: later) = s.moveActions m ++ (s.move m).recorded later := by
  rw [recorded, (attempt_cons later well).2, List.map_append, List.map_map]
  exact congrArg (· ++ _) (List.map_id _)

theorem recorded_cons_of_stopped (later : List (Move τ)) (stops : s.answer m ≠ .ok false) :
    s.recorded (m :: later) = s.moveActions m := by
  rw [recorded, (attempt_cons_of_stopped later stops).2, List.map_map]
  exact List.map_id _

theorem path_attempt (s : Scheduler τ ι) (moves : List (Move τ)) :
    Path s (s.recorded moves) (s.attempt moves).1 := by
  induction moves generalizing s with
  | nil => exact .nil s
  | cons m later ih =>
    by_cases well : s.answer m = .ok false
    · rw [recorded_cons later well, (attempt_cons later well).1]
      exact (s.path_move m).append (ih _)
    · rw [recorded_cons_of_stopped later well, (attempt_cons_of_stopped later well).1]
      exact s.path_move m

end Scheduler

end Chip8
