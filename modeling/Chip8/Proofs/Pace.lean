import Mathlib.Algebra.BigOperators.Group.List.Basic
import Chip8.Host.Playback
import Chip8.Proofs.Settling

/-! The pace of a scheduler. Both clocks keep books: what they hold is the time that has passed, less
an interval for each event that was performed. Between the moves of a host they hold less than another
interval, so the time that has passed says how many frames there were, and how many instructions if
the scheduler was never paused. -/

namespace Chip8

/-- The time that an action adds to the clocks. -/
def Action.elapsed : Action Rat → Rat
  | charge elapsed => Scheduler.clampElapsed elapsed
  | instruction | begin | poll | collect | pause | resume | operate _ | tick | buzzer | render | count
  | finish | rest => 0

/-- Actions that make a step, be it one that was due or one that was asked for. -/
def Action.isStep {τ : Type} : Action τ → Bool
  | instruction => true
  | operate operation => operation == .step
  | charge _ | begin | poll | collect | pause | resume | tick | buzzer | render | count | finish
  | rest => false

/-- The time that a move lets pass. It never runs backwards, and a long absence counts only in part. -/
def Move.elapsed : Move Rat → Rat
  | advance elapsed => min (max elapsed 0) (1 / 4)
  | pause | resume | singleStep | obey _ | operate _ | rest => 0

namespace Scheduler

open TimeLine

variable {ι : Type} [InputDevice ι] {s s' : Scheduler Rat ι} {actions : List (Action Rat)}
  {moves : List (Move Rat)} {a : Action Rat} {m : Move Rat} {event : Event}
  {result : Except Failure Bool}

/-! ## Books of the clocks -/

/-- The time that actions add to the clocks. -/
def elapsedIn (actions : List (Action Rat)) : Rat := (actions.map Action.elapsed).sum

theorem elapsedIn_cons (a : Action Rat) (rest : List (Action Rat)) :
    elapsedIn (a :: rest) = a.elapsed + elapsedIn rest := List.sum_cons

theorem count_cons (a a' : Action Rat) (rest : List (Action Rat)) :
    (a :: rest).count a' = [a].count a' + rest.count a' := by
  rw [← List.count_append, List.singleton_append]

theorem elapsedIn_append (actions rest : List (Action Rat)) :
    elapsedIn (actions ++ rest) = elapsedIn actions + elapsedIn rest := by
  rw [elapsedIn, List.map_append, List.sum_append, elapsedIn, elapsedIn]

theorem elapsedIn_of_keepsTime (h : ∀ a ∈ actions, a.keepsTime = true) : elapsedIn actions = 0 := by
  induction actions with
  | nil => rfl
  | cons a rest ih =>
    obtain ⟨first, others⟩ := List.forall_mem_cons.mp h
    have none : a.elapsed = 0 := by cases a <;> first | rfl | cases first
    rw [elapsedIn_cons, none, zero_add]
    exact ih others

theorem Timing.timer_take (t : Timing) (a : Action Rat) :
    (t.take a).timer = t.timer + a.elapsed - [a].count .begin * (1 / 60) := by
  cases a <;> simp [Timing.take, Action.elapsed]

theorem Timing.core_take (t : Timing) (a : Action Rat) (running : t.paused = false)
    (kept : a ≠ .pause) : (t.take a).paused = false ∧
      (t.take a).core = t.core + a.elapsed - [a].count .instruction * (1 / t.speed) := by
  cases a with
  | pause => exact absurd rfl kept
  | _ => simp [Timing.take, Action.elapsed, running]

theorem timer_takeAll (s : Scheduler Rat ι) (actions : List (Action Rat)) :
    (s.takeAll actions).timer =
      s.timer + elapsedIn actions - actions.count .begin * (1 / 60) := by
  induction actions generalizing s with
  | nil => simp [takeAll, elapsedIn]
  | cons a rest ih =>
    have first : (s.take a).timer = _ := congrArg Timing.timer (s.timing_take a)
    rw [Timing.timer_take] at first
    rw [takeAll_cons, ih, first, elapsedIn_cons, count_cons a _ rest, timing]
    push_cast
    ring

theorem core_takeAll (s : Scheduler Rat ι) {actions : List (Action Rat)} (running : s.paused = false)
    (kept : .pause ∉ actions) : (s.takeAll actions).paused = false ∧ (s.takeAll actions).core =
      s.core + elapsedIn actions - actions.count .instruction * s.coreInterval := by
  induction actions generalizing s with
  | nil => simp [takeAll, elapsedIn, running]
  | cons a rest ih =>
    obtain ⟨other, others⟩ := List.ne_and_not_mem_of_not_mem_cons kept
    obtain ⟨running', first⟩ := s.timing.core_take a running other.symm
    rw [← timing_take] at running' first
    have speed : (s.take a).coreInterval = s.coreInterval :=
      coreInterval_of_speed (s.speed_takeAll [a])
    obtain ⟨stays, core⟩ := ih (s.take a) running' others
    refine ⟨stays, ?_⟩
    have first : (s.take a).core = _ := first
    rw [takeAll_cons, core, first, speed, elapsedIn_cons, count_cons a _ rest, coreInterval_eq,
      timing]
    push_cast
    ring

/-! ## Frames as wholes -/

/-- Every frame that was begun polled, ticked and was counted, once each. -/
structure Complete (actions : List (Action Rat)) : Prop where
  polls : actions.count .poll = actions.count .begin
  ticks : actions.count .tick = actions.count .begin
  frames : actions.count .count = actions.count .begin

theorem Complete.append {rest : List (Action Rat)} (h : Complete actions) (h' : Complete rest) :
    Complete (actions ++ rest) where
  polls := by rw [List.count_append, List.count_append, h.polls, h'.polls]
  ticks := by rw [List.count_append, List.count_append, h.ticks, h'.ticks]
  frames := by rw [List.count_append, List.count_append, h.frames, h'.frames]

theorem count_of_isCommand (h : ∀ a ∈ actions, a.isCommand = true) (other : a.isCommand = false) :
    actions.count a = 0 :=
  List.count_eq_zero.mpr fun member => Bool.false_ne_true (other.symm.trans (h a member))

theorem complete_of_isCommand (h : ∀ a ∈ actions, a.isCommand = true) : Complete actions where
  polls := by rw [count_of_isCommand h rfl, count_of_isCommand h rfl]
  ticks := by rw [count_of_isCommand h rfl, count_of_isCommand h rfl]
  frames := by rw [count_of_isCommand h rfl, count_of_isCommand h rfl]

theorem keepsTime_of_isCommand (h : ∀ a ∈ actions, a.isCommand = true) :
    ∀ a ∈ actions, a.keepsTime = true := fun a member => a.keepsTime_of_isCommand (h a member)

/-- A frame that ends well has obeyed its commands. -/
theorem of_frame (h : s.frame = (s', .ok false)) : s.pollResult = .ok false ∧
    ∃ s'' : Scheduler Rat ι, s.polled.collected.obeyAll s.polled.commands = (s'', .ok ()) := by
  cases polled : s.pollResult with
  | error failure => cases (frame_of_error polled).symm.trans h
  | ok quit =>
    cases quit with
    | true => cases (frame_of_quit polled).symm.trans h
    | false =>
      cases obeyed : s.polled.collected.obeyAll s.polled.commands with
      | mk s'' result =>
        cases result with
        | error failure => cases (frame_of_disobeyed polled obeyed).symm.trans h
        | ok => exact ⟨rfl, s'', rfl⟩

theorem frameActions_of_obeyed {s'' : Scheduler Rat ι} (polled : s.pollResult = .ok false)
    (obeyed : s.polled.collected.obeyAll s.polled.commands = (s'', .ok ())) :
    s.frameActions = .poll :: .collect ::
      (s.polled.collected.obeyAllActions s.polled.commands ++ finishActions) := by
  simp only [frameActions, polled, obeyed, List.cons_append]

theorem complete_performActions (h : s.perform event = (s', .ok false)) :
    Complete (s.performActions event) := by
  cases event with
  | instruction => constructor <;> rfl
  | frame =>
    obtain ⟨polled, s'', obeyed⟩ := of_frame h
    have frame : (s.take .begin).frameActions = _ := frameActions_of_obeyed polled obeyed
    have commands : ∀ a ∈ (s.take .begin).polled.collected.obeyAllActions
        (s.take .begin).polled.commands, a.isCommand = true :=
      fun _ => isCommand_of_mem_obeyAllActions
    rw [performActions, frame]
    generalize (s.take .begin).polled.collected.obeyAllActions (s.take .begin).polled.commands =
      actions at commands ⊢
    have middle := complete_of_isCommand commands
    constructor <;> simp [finishActions, middle.polls, middle.ticks, middle.frames]

theorem PaysOut.complete (h : PaysOut s actions s' result) (well : result = .ok false) :
    Complete actions := by
  induction h with
  | settled => constructor <;> rfl
  | stopped _ _ stops => exact absurd well stops
  | next _ performed _ ih => exact (complete_performActions performed).append (ih well)

theorem frames_take (s : Scheduler Rat ι) (a : Action Rat) :
    (s.take a).frames = s.frames + [a].count .count := by
  cases a with
  | instruction => exact frames_operate _ _
  | operate operation => exact frames_operate _ _
  | render => exact s.frames_render
  | buzzer =>
    simp only [take, updateBuzzer]
    split <;> rfl
  | count =>
    simp only [take, countFrame]
    split <;> rfl
  | rest =>
    simp only [take, Scheduler.rest]
    split <;> rfl
  | _ => rfl

theorem frames_takeAll (s : Scheduler Rat ι) (actions : List (Action Rat)) :
    (s.takeAll actions).frames = s.frames + actions.count .count := by
  induction actions generalizing s with
  | nil => rfl
  | cons a rest ih =>
    rw [takeAll_cons, ih, frames_take, count_cons a _ rest, Nat.add_assoc]

/-! ## The loop -/

/-- The action that an event begins with. -/
def Event.action : Event → Action Rat
  | .frame => .begin
  | .instruction => .instruction

theorem exists_performActions (s : Scheduler Rat ι) (event : Event) :
    ∃ rest, s.performActions event = event.action :: rest ∧ ∀ a ∈ rest, a.keepsTime = true := by
  cases event with
  | frame => exact ⟨_, rfl, fun _ => keepsTime_of_mem_frameActions⟩
  | instruction => exact ⟨[], rfl, nofun⟩

theorem elapsedIn_performActions (s : Scheduler Rat ι) (event : Event) :
    elapsedIn (s.performActions event) = 0 := by
  obtain ⟨rest, performed, keeps⟩ := s.exists_performActions event
  rw [performed, elapsedIn_cons, elapsedIn_of_keepsTime keeps, add_zero]
  cases event <;> rfl

theorem count_performActions (s : Scheduler Rat ι) (event other : Event) :
    (s.performActions event).count other.action = [event].count other := by
  obtain ⟨rest, performed, keeps⟩ := s.exists_performActions event
  have spends : other.action.keepsTime = false := by cases other <;> rfl
  have none : rest.count other.action = 0 :=
    List.count_eq_zero.mpr fun member => Bool.false_ne_true (spends.symm.trans (keeps _ member))
  rw [performed, count_cons, none]
  cases event <;> cases other <;> rfl

theorem PaysOut.elapsedIn_eq (h : PaysOut s actions s' result) : elapsedIn actions = 0 := by
  induction h with
  | settled => rfl
  | stopped => exact elapsedIn_performActions _ _
  | next _ _ _ ih => rw [elapsedIn_append, elapsedIn_performActions, ih, add_zero]

theorem PaysOut.settles (h : PaysOut s actions s' result) (well : result = .ok false) :
    s'.dueEvent = none := by
  induction h with
  | settled nothing => exact nothing
  | stopped _ _ stops => exact absurd well stops
  | next _ _ _ ih => exact ih well

theorem le_timer_perform (due : s.dueEvent = some event) (ahead : 0 ≤ s.timer + tolerance) :
    0 ≤ (s.perform event).1.timer + tolerance := by
  have begun : (s.performActions event).count .begin = _ := s.count_performActions event .frame
  rw [perform_eq, timer_takeAll, elapsedIn_performActions, begun]
  cases event with
  | frame =>
    have enough := (dueEvent_eq_frame_iff.mp due).1
    rw [List.count_singleton_self, Nat.cast_one]
    linarith
  | instruction =>
    have none : [Event.instruction].count .frame = 0 := rfl
    rw [none, Nat.cast_zero]
    linarith

/-- A frame is performed at most the tolerance before its time. -/
theorem PaysOut.le_timer (h : PaysOut s actions s' result) (ahead : 0 ≤ s.timer + tolerance) :
    0 ≤ s'.timer + tolerance := by
  induction h with
  | settled => exact ahead
  | stopped due performed _ => simpa only [performed] using le_timer_perform due ahead
  | next due performed _ ih => exact ih (by simpa only [performed] using le_timer_perform due ahead)

/-! ## The loop without pauses -/

omit [InputDevice ι] in
/-- A step by hand is for a scheduler that is paused. -/
theorem obey_step_of_running (running : s.paused = false) :
    s.obey .step = (s, .ok ()) ∧ s.obeyActions .step = [] := by
  constructor
  · simp only [obey, running, Bool.false_eq_true, if_false]
  · simp only [obeyActions, running, Bool.false_eq_true, if_false]

omit [InputDevice ι] in
theorem obeyAllActions_of_running {commands : List HostCommand} (running : s.paused = false)
    (kept : .pause ∉ s.obeyAllActions commands) : s.obeyAllActions commands = [] := by
  induction commands with
  | nil => rfl
  | cons c rest ih =>
    cases c with
    | togglePause =>
      have pauses : s.obeyActions .togglePause = [.pause] := by
        simp only [obeyActions, running, Bool.false_eq_true, if_false]
      rw [obeyAllActions, pauses] at kept
      exact absurd (List.mem_append_left _ (List.mem_singleton_self _)) kept
    | step =>
      obtain ⟨ignored, nothing⟩ := obey_step_of_running running
      rw [obeyAllActions, ignored, nothing] at kept ⊢
      exact ih kept

theorem steps_performActions (running : s.paused = false) (kept : .pause ∉ s.performActions event) :
    (s.performActions event).countP Action.isStep = [event].count .instruction := by
  cases event with
  | instruction => rfl
  | frame =>
    rw [performActions] at kept ⊢
    rcases (s.take .begin).frameActions_cases with polled | ⟨rest, ends, all⟩
    · rw [polled]
      rfl
    · have silent : (s.take .begin).polled.collected.obeyAllActions
          (s.take .begin).polled.commands = [] :=
        obeyAllActions_of_running running fun pauses => kept (by simp [all, pauses])
      rw [all, silent]
      rcases ends with rfl | rfl <;> rfl

theorem running_perform (running : s.paused = false) (kept : .pause ∉ s.performActions event) :
    (s.perform event).1.paused = false := by
  rw [perform_eq]
  exact (s.core_takeAll running kept).1

theorem le_core_perform (due : s.dueEvent = some event) (running : s.paused = false)
    (kept : .pause ∉ s.performActions event) (ahead : 0 ≤ s.core + tolerance) :
    0 ≤ (s.perform event).1.core + tolerance := by
  have spent : (s.performActions event).count .instruction = _ :=
    s.count_performActions event .instruction
  rw [perform_eq, (s.core_takeAll running kept).2, elapsedIn_performActions, spent]
  cases event with
  | frame =>
    have none : [Event.frame].count .instruction = 0 := rfl
    rw [none, Nat.cast_zero]
    linarith
  | instruction =>
    have enough := (dueEvent_eq_instruction_iff.mp due).1
    rw [List.count_singleton_self, Nat.cast_one]
    linarith

/-- Without pauses the loop makes steps only as instructions that are due. -/
theorem PaysOut.steps (h : PaysOut s actions s' result) (running : s.paused = false)
    (kept : .pause ∉ actions) : actions.countP Action.isStep = actions.count .instruction := by
  have each {s : Scheduler Rat ι} {event : Event} (running : s.paused = false)
      (kept : .pause ∉ s.performActions event) : (s.performActions event).countP Action.isStep =
        (s.performActions event).count .instruction :=
    (steps_performActions running kept).trans (s.count_performActions event .instruction).symm
  induction h with
  | settled => rfl
  | stopped => exact each running kept
  | next due performed _ ih =>
    obtain ⟨first, others⟩ := not_or.mp (List.mem_append.not.mp kept)
    have runs := running_perform running first
    rw [performed] at runs
    rw [List.countP_append, List.count_append, each running first, ih runs others]

theorem PaysOut.le_core (h : PaysOut s actions s' result) (running : s.paused = false)
    (kept : .pause ∉ actions) (ahead : 0 ≤ s.core + tolerance) : 0 ≤ s'.core + tolerance := by
  induction h with
  | settled => exact ahead
  | stopped due performed _ =>
    simpa only [performed] using le_core_perform due running kept ahead
  | next due performed _ ih =>
    obtain ⟨first, others⟩ := not_or.mp (List.mem_append.not.mp kept)
    have runs := running_perform running first
    have ahead := le_core_perform due running first ahead
    rw [performed] at runs ahead
    exact ih runs others ahead

/-! ## Moves -/

theorem clampElapsed_nonneg (elapsed : Rat) : 0 ≤ clampElapsed elapsed := by
  rw [clampElapsed_eq]
  exact le_min (le_max_right _ _) (by norm_num)

omit [InputDevice ι] in
theorem le_timer_charge (ahead : 0 ≤ s.timer + tolerance) (elapsed : Rat) :
    0 ≤ (s.charge elapsed).timer + tolerance := by
  have more := clampElapsed_nonneg elapsed
  show 0 ≤ s.timer + clampElapsed elapsed + tolerance
  linarith

omit [InputDevice ι] in
theorem le_core_charge (ahead : 0 ≤ s.core + tolerance) (elapsed : Rat) :
    0 ≤ (s.charge elapsed).core + tolerance := by
  have more := clampElapsed_nonneg elapsed
  show 0 ≤ (if s.paused then s.core else s.core + clampElapsed elapsed) + tolerance
  split <;> linarith

theorem complete_moveActions (positive : 0 < s.speed) (well : s.answer m = .ok false) :
    Complete (s.moveActions m) := by
  obtain still | ⟨elapsed, actions, rfl, done, paid⟩ := move_cases positive m
  · exact complete_of_isCommand fun _ => isCommand_of_mem_moveActions still
  · have charge : Complete [.charge elapsed] := by constructor <;> rfl
    rw [done]
    exact charge.append (paid.complete well)

theorem elapsedIn_moveActions (positive : 0 < s.speed) (m : Move Rat) :
    elapsedIn (s.moveActions m) = m.elapsed := by
  obtain still | ⟨elapsed, actions, rfl, done, paid⟩ := move_cases positive m
  · have commands : ∀ a ∈ s.moveActions m, a.isCommand = true :=
      fun _ => isCommand_of_mem_moveActions still
    rw [elapsedIn_of_keepsTime (keepsTime_of_isCommand commands)]
    cases m <;> first | rfl | cases still
  · rw [done, elapsedIn_cons, paid.elapsedIn_eq, add_zero]
    exact clampElapsed_eq elapsed

/-- However a move ends, no frame has come more than the tolerance too early. -/
theorem ahead_move (positive : 0 < s.speed) (ahead : 0 ≤ s.timer + tolerance) (m : Move Rat) :
    0 ≤ (s.move m).timer + tolerance := by
  obtain still | ⟨elapsed, _, rfl, -, paid⟩ := move_cases positive m
  · rwa [(s.untimed_move still).timer]
  · exact paid.le_timer (le_timer_charge ahead elapsed)

/-- Between the moves of a host no frame is due, and none came too early. -/
structure InTime (s : Scheduler Rat ι) : Prop where
  ahead : 0 ≤ s.timer + tolerance
  settled : s.timer + tolerance < 1 / 60

theorem InTime.move (inTime : s.InTime) (positive : 0 < s.speed) (well : s.answer m = .ok false) :
    (s.move m).InTime where
  ahead := ahead_move positive inTime.ahead m
  settled := by
    obtain still | ⟨_, _, rfl, -, paid⟩ := move_cases positive m
    · rw [(s.untimed_move still).timer]
      exact inTime.settled
    · exact (dueEvent_eq_none_iff.mp (paid.settles well)).1

/-! ## Rows of moves -/

/-- What is done while time passes. -/
def timedActions (s : Scheduler Rat ι) (moves : List (Move Rat)) : List (Action Rat) :=
  ((s.record moves).filter fun r => r.1.advances).map Prod.snd

theorem speed_attempt (s : Scheduler Rat ι) (moves : List (Move Rat)) :
    (s.attempt moves).1.speed = s.speed := by
  rw [(s.path_attempt moves).takeAll_eq, speed_takeAll]

theorem timedActions_cons (rest : List (Move Rat)) (well : s.answer m = .ok false) :
    s.timedActions (m :: rest) =
      (if m.advances then s.moveActions m else []) ++ (s.move m).timedActions rest := by
  rw [timedActions, (attempt_cons rest well).2, List.filter_append, List.map_append]
  refine congrArg (· ++ _) ?_
  cases timed : m.advances <;> simp [List.filter_map, Function.comp_def, timed]

/-- The books of a row of moves. -/
theorem InTime.attempt (inTime : s.InTime) (positive : 0 < s.speed)
    (smooth : (s.attempt moves).2 = .ok false) : (s.attempt moves).1.InTime ∧
      Complete (s.recorded moves) ∧ elapsedIn (s.recorded moves) = (moves.map Move.elapsed).sum := by
  induction moves generalizing s with
  | nil => exact ⟨inTime, by constructor <;> rfl, rfl⟩
  | cons m rest ih =>
    have well := well_of_attempt smooth
    have goesOn := (attempt_cons rest well).1
    rw [goesOn] at smooth
    obtain ⟨inTime', complete, elapsed⟩ :=
      ih (inTime.move positive well) ((s.speed_move m).symm ▸ positive) smooth
    rw [goesOn, recorded_cons rest well]
    refine ⟨inTime', (complete_moveActions positive well).append complete, ?_⟩
    rw [elapsedIn_append, elapsedIn_moveActions positive, elapsed, List.map_cons, List.sum_cons]

/-- A clock that runs stands still while no time passes. -/
theorem core_move_of_still (still : m.advances = false) (running : s.paused = false)
    (kept : .pause ∉ s.moveActions m) :
    (s.moveActions m).count .instruction = 0 ∧ (s.move m).core = s.core := by
  have commands : ∀ a ∈ s.moveActions m, a.isCommand = true :=
    fun _ => isCommand_of_mem_moveActions still
  have none : (s.moveActions m).count .instruction = 0 := count_of_isCommand commands rfl
  refine ⟨none, ?_⟩
  rw [(s.path_move m).takeAll_eq, (s.core_takeAll running kept).2,
    elapsedIn_of_keepsTime (keepsTime_of_isCommand commands), none, Nat.cast_zero, zero_mul,
    add_zero, sub_zero]

/-- As long as nothing pauses, the steps that are made while time passes are the instructions that
were due, and none came too early. -/
theorem steps_move (positive : 0 < s.speed) (well : s.answer m = .ok false)
    (running : s.paused = false) (kept : .pause ∉ s.moveActions m) (ahead : 0 ≤ s.core + tolerance) :
    (if m.advances then s.moveActions m else []).countP Action.isStep =
        (s.moveActions m).count .instruction ∧
      0 ≤ (s.move m).core + tolerance ∧
      (s.core + tolerance < s.coreInterval ∨ m.advances = true →
        (s.move m).core + tolerance < s.coreInterval) := by
  have interval : (s.move m).coreInterval = s.coreInterval := coreInterval_of_speed (s.speed_move m)
  obtain still | ⟨elapsed, actions, rfl, done, paid⟩ := move_cases positive m
  · obtain ⟨none, same⟩ := core_move_of_still still running kept
    rw [none, same, still]
    exact ⟨rfl, ahead, fun before => before.resolve_right Bool.false_ne_true⟩
  · rw [done] at kept ⊢
    have running' : (s.charge elapsed).paused = false := running
    have kept := List.not_mem_of_not_mem_cons kept
    refine ⟨?_, paid.le_core running' kept (le_core_charge ahead elapsed), fun _ => ?_⟩
    · rw [Move.advances, if_pos rfl, count_cons _ .instruction actions, List.countP_cons,
        paid.steps running' kept]
      exact (Nat.zero_add _).symm
    · rw [← interval]
      exact (dueEvent_eq_none_iff.mp (paid.settles well)).2

theorem steps_attempt (positive : 0 < s.speed) (smooth : (s.attempt moves).2 = .ok false)
    (running : s.paused = false) (kept : .pause ∉ s.recorded moves)
    (ahead : 0 ≤ s.core + tolerance) :
    (s.timedActions moves).countP Action.isStep = (s.recorded moves).count .instruction ∧
      0 ≤ (s.attempt moves).1.core + tolerance ∧
      (s.core + tolerance < s.coreInterval ∨ (∃ m ∈ moves, m.advances = true) →
        (s.attempt moves).1.core + tolerance < s.coreInterval) := by
  induction moves generalizing s with
  | nil => exact ⟨rfl, ahead, fun before => before.resolve_right (by simp)⟩
  | cons m rest ih =>
    have well := well_of_attempt smooth
    have goesOn := (attempt_cons rest well).1
    rw [recorded_cons rest well] at kept
    rw [goesOn, recorded_cons rest well, timedActions_cons rest well]
    obtain ⟨first, others⟩ := not_or.mp (List.mem_append.not.mp kept)
    have running' : (s.move m).paused = false := by
      rw [(s.path_move m).takeAll_eq]
      exact (s.core_takeAll running first).1
    have interval : (s.move m).coreInterval = s.coreInterval :=
      coreInterval_of_speed (s.speed_move m)
    obtain ⟨steps, ahead', settled⟩ := steps_move positive well running first ahead
    obtain ⟨steps', last, settled'⟩ :=
      ih ((s.speed_move m).symm ▸ positive) (goesOn ▸ smooth) running' others ahead'
    refine ⟨?_, last, fun before => ?_⟩
    · rw [List.countP_append, List.count_append, steps, steps']
    · rw [← interval]
      refine settled' ?_
      rw [interval]
      rcases before with before | ⟨b, member, timed⟩
      · exact .inl (settled (.inl before))
      · rcases List.mem_cons.mp member with rfl | later
        · exact .inl (settled (.inr timed))
        · exact .inr ⟨b, later, timed⟩

/-! ## The count of everything -/

omit [InputDevice ι] in
theorem of_new {machine : Machine} {inputs : ι} {speed : Int} {paused : Bool}
    (built : Scheduler.new machine inputs speed paused = .ok s) :
    (s.speed : Int) = speed ∧ 0 < s.speed ∧ s.core = 0 ∧ s.timer = 0 ∧ s.frames = 0 := by
  obtain ⟨positive, rfl⟩ := eq_of_new built
  have nat : (speed.toNat : Int) = speed := Int.toNat_of_nonneg positive.le
  have kept : 0 < speed.toNat := by omega
  exact ⟨nat, kept, zero_eq, zero_eq, rfl⟩

/-- A count of intervals that leaves less than another one is a floor. -/
theorem eq_floor {n : Nat} {span interval held : Rat} (positive : 0 < interval)
    (book : held = span - n * interval) (ahead : 0 ≤ held + tolerance)
    (settled : held + tolerance < interval) : n = ⌊(span + 1 / 10 ^ 9) / interval⌋₊ := by
  rw [tolerance_eq] at ahead settled
  have low : n * interval ≤ span + 1 / 10 ^ 9 := by linarith
  have high : span + 1 / 10 ^ 9 < (n + 1) * interval := by linarith
  have nonneg : 0 ≤ (span + 1 / 10 ^ 9) / interval :=
    div_nonneg ((mul_nonneg n.cast_nonneg positive.le).trans low) positive.le
  exact ((Nat.floor_eq_iff nonneg).mpr
    ⟨(le_div_iff₀ positive).mpr low, (div_lt_iff₀ positive).mpr high⟩).symm

/-- A scheduler keeps the pace in a row of moves. -/
structure KeepsPace (s : Scheduler Rat ι) (moves : List (Move Rat)) : Prop where
  /-- Whenever time passes, the loop that pays it out comes to an end. -/
  ends : ∀ before elapsed rest, moves = before ++ .advance elapsed :: rest →
    let met := (s.attempt before).1
    ∃ actions, met.moveActions (.advance elapsed) = .charge elapsed :: actions ∧
      PaysOut (met.charge elapsed) actions (met.advance elapsed).1 (met.advance elapsed).2
  /-- The actions are all that is done, and each is admitted where it is taken. -/
  done : Path s (s.recorded moves) (s.attempt moves).1 ∧
    (s.attempt moves).1 = s.takeAll (s.recorded moves)
  polls : (s.recorded moves).count .poll =
    ⌊((moves.map Move.elapsed).sum + 1 / 10 ^ 9) / (1 / 60)⌋₊
  ticks : (s.recorded moves).count .tick =
    ⌊((moves.map Move.elapsed).sum + 1 / 10 ^ 9) / (1 / 60)⌋₊
  frames : (s.recorded moves).count .count =
    ⌊((moves.map Move.elapsed).sum + 1 / 10 ^ 9) / (1 / 60)⌋₊
  counted : (s.attempt moves).1.frames =
    ⌊((moves.map Move.elapsed).sum + 1 / 10 ^ 9) / (1 / 60)⌋₊
  /-- Without a pause, the steps that are made while time passes. -/
  steps : s.paused = false → .pause ∉ s.recorded moves → (∃ m ∈ moves, m.advances = true) →
    (s.timedActions moves).countP Action.isStep =
      ⌊((moves.map Move.elapsed).sum + 1 / 10 ^ 9) * s.speed⌋₊

/-- From its start, and whatever the user and the program do, a scheduler makes sixty frames a second;
without a pause it also executes instructions at its speed. -/
theorem keepsPace_of_smooth {machine : Machine} {inputs : ι} {speed : Int} {paused : Bool}
    (built : Scheduler.new machine inputs speed paused = .ok s)
    (smooth : (s.attempt moves).2 = .ok false) : (s.speed : Int) = speed ∧ s.KeepsPace moves := by
  obtain ⟨kept, positive, core, timer, first⟩ := of_new built
  have inTime : s.InTime := ⟨by norm_num [timer], by norm_num [timer]⟩
  obtain ⟨inTime', complete, elapsed⟩ := inTime.attempt positive smooth
  have path := s.path_attempt moves
  have frames : (s.recorded moves).count .begin =
      ⌊((moves.map Move.elapsed).sum + 1 / 10 ^ 9) / (1 / 60)⌋₊ := by
    refine eq_floor (by norm_num) ?_ inTime'.ahead inTime'.settled
    rw [path.takeAll_eq, timer_takeAll, timer, elapsed, zero_add]
  refine ⟨kept, {
    ends := fun before elapsed rest _ =>
      paysOut_advance ((s.speed_attempt before).symm ▸ positive) elapsed
    done := ⟨path, path.takeAll_eq⟩
    polls := complete.polls.trans frames
    ticks := complete.ticks.trans frames
    frames := complete.frames.trans frames
    counted := ?_
    steps := fun running unpaused timed => ?_ }⟩
  · rw [path.takeAll_eq, frames_takeAll, first, Nat.zero_add, complete.frames, frames]
  · have ahead : 0 ≤ s.core + tolerance := by norm_num [core]
    obtain ⟨steps, ahead', settled⟩ := steps_attempt positive smooth running unpaused ahead
    have book : (s.attempt moves).1.core = (moves.map Move.elapsed).sum -
        (s.recorded moves).count .instruction * s.coreInterval := by
      rw [path.takeAll_eq, (s.core_takeAll running unpaused).2, core, elapsed, zero_add]
    rw [steps, eq_floor (coreInterval_pos positive) book ahead' (settled (.inr timed)),
      coreInterval_eq, div_div_eq_mul_div, div_one]

/-- A fiftieth of a second at fifty instructions a second, with a clock that then runs backwards. -/
theorem keepsPace_of_smooth_fiftieth :
    let m : Machine := { Machine.new {} false false (.cycle []) with
      memory := (Memory.zeros 0x1000).putAll 0x200 [0x60, 0x01] }
    let moves : List (Move Rat) := [.advance (1 / 50), .advance (-1)]
    ∃ s : Scheduler Rat Playback, Scheduler.new m .silent 50 false = .ok s ∧
      (s.attempt moves).2 = .ok false ∧
      (s.recorded moves).count .poll = 1 ∧ (s.timedActions moves).countP Action.isStep = 1 := by
  intro m moves
  let s : Scheduler Rat Playback := report
    { machine := m, inputs := .silent, speed := 50, core := 0, timer := 0, paused := false } 0 0
  have built : Scheduler.new m Playback.silent 50 false = .ok s := rfl
  have smooth : (s.attempt moves).2 = .ok false := by decide +kernel
  have unpaused : .pause ∉ s.recorded moves := by decide +kernel
  have span : (moves.map Move.elapsed).sum = 1 / 50 := by
    norm_num [moves, Move.elapsed]
  obtain ⟨_, pace⟩ := keepsPace_of_smooth built smooth
  refine ⟨s, built, smooth, ?_, ?_⟩
  · rw [pace.polls, span]
    norm_num [Nat.floor_eq_iff]
  · rw [pace.steps rfl unpaused ⟨_, List.mem_cons_self, rfl⟩, span]
    norm_num [Nat.floor_eq_iff, s, report, call]

end Scheduler

end Chip8
