import Mathlib.Algebra.Order.BigOperators.Group.List
import Chip8.Proofs.Pace

/-! Slices of time. On inputs that neither pause nor quit, what a scheduler does next does not change
when more time passes. So it is all the same whether time passes at once or in slices: a loop that
was left and entered again goes on where it would have gone on anyway. -/

namespace Chip8

/-- Inputs that the clocks do not notice. -/
def InputAction.isQuiet : InputAction → Bool
  | key index _ => 0 ≤ index && index < Layout.keyCount
  | command c => c == .step
  | quit => false

/-- The event that an action begins, if it begins one. -/
def Action.event? {τ : Type} : Action τ → Option Scheduler.Event
  | begin => some .frame
  | instruction => some .instruction
  | charge _ | pause | resume | poll | collect | operate _ | tick | buzzer | render | count | finish
  | rest => none

namespace Playback

variable {device : Playback} {keypad : Keypad} {actions : List InputAction}

/-- A device that never pauses and never quits. -/
structure Quiet (device : Playback) : Prop where
  script : ∀ n, ∀ action ∈ device.script n, action.isQuiet = true
  commands : ∀ c ∈ device.commands, c = .step

theorem Quiet.perform (quiet : device.Quiet) (h : ∀ action ∈ actions, action.isQuiet = true) :
    (device.perform keypad false actions).device.Quiet ∧
      (device.perform keypad false actions).result = .ok false := by
  induction actions generalizing device keypad with
  | nil => exact ⟨quiet, rfl⟩
  | cons action rest ih =>
    obtain ⟨first, others⟩ := List.forall_mem_cons.mp h
    cases action with
    | key index pressed =>
      simp only [InputAction.isQuiet, Bool.and_eq_true, decide_eq_true_eq] at first
      have set : ∃ k, keypad.set index pressed = .ok k := by
        rw [Keypad.set, dif_pos first]
        exact ⟨_, rfl⟩
      obtain ⟨k, set⟩ := set
      simp only [Playback.perform, set]
      exact ih quiet others
    | command c =>
      obtain rfl : c = .step := beq_iff_eq.mp first
      refine ih ⟨quiet.script, fun c member => ?_⟩ others
      rcases List.mem_append.mp member with before | last
      · exact quiet.commands c before
      · exact List.mem_singleton.mp last
    | quit => cases first

end Playback

namespace Scheduler

open TimeLine

/-- A scheduler that runs, on quiet inputs. -/
structure Quiet (s : Scheduler Rat Playback) : Prop where
  running : s.paused = false
  inputs : s.inputs.Quiet

variable {s s' s'' : Scheduler Rat Playback} {actions rest : List (Action Rat)} {event : Event}
  {result : Except Failure Bool}

/-! ## Events without the clocks -/

/-- What an event comes to, apart from the interval that it takes from its clock. -/
def happen {ι : Type} [InputDevice ι] (s : Scheduler Rat ι) :
    Event → Scheduler Rat ι × Except Failure Bool
  | .frame => s.frame
  | .instruction => (s.stepMachine.1, s.stepMachine.2.map fun _ => false)

theorem perform_eq_happen {ι : Type} [InputDevice ι] (s : Scheduler Rat ι) (event : Event) :
    s.perform event = (s.spend event).happen event := by
  cases event with
  | frame => rfl
  | instruction =>
    rw [perform, happen]
    cases (s.spend .instruction).stepMachine with
    | mk s' result => cases result <;> rfl

/-- What a quiet scheduler does for a frame. -/
def quietFrame : List (Action Rat) := .poll :: .collect :: finishActions

theorem obeyAll_of_quiet {commands : List HostCommand} (running : s.paused = false)
    (quiet : ∀ c ∈ commands, c = .step) :
    s.obeyAll commands = (s, .ok ()) ∧ s.obeyAllActions commands = [] := by
  induction commands with
  | nil => exact ⟨rfl, rfl⟩
  | cons c rest ih =>
    obtain ⟨rfl, others⟩ := List.forall_mem_cons.mp quiet
    obtain ⟨obeyed, nothing⟩ := ih others
    obtain ⟨ignored, silent⟩ := obey_step_of_running running
    constructor
    · rw [obeyAll, ignored]
      exact obeyed
    · rw [obeyAllActions, ignored, silent]
      exact nothing

theorem Quiet.poll (quiet : s.Quiet) : s.polled.inputs.Quiet ∧ s.pollResult = .ok false :=
  Playback.Quiet.perform ⟨quiet.inputs.script, quiet.inputs.commands⟩ (quiet.inputs.script _)

theorem Quiet.frame (quiet : s.Quiet) :
    s.frame = (s.takeAll quietFrame, .ok false) ∧ s.frameActions = quietFrame := by
  obtain ⟨inputs, polled⟩ := quiet.poll
  obtain ⟨obeyed, nothing⟩ := obeyAll_of_quiet (s := s.polled.collected) quiet.running inputs.commands
  constructor
  · rw [frame_of_obeyed polled obeyed, quietFrame, takeAll_cons, takeAll_cons]
    rfl
  · rw [frameActions_of_obeyed polled obeyed]
    exact congrArg (fun actions => Action.poll :: .collect :: (actions ++ finishActions)) nothing

theorem takeAll_retime {ι : Type} [InputDevice ι] (s : Scheduler Rat ι) (t : Timing)
    {actions : List (Action Rat)} (outside : ∀ a ∈ actions, a.outside = true) :
    (s.retime t).takeAll actions = (s.takeAll actions).retime t := by
  induction actions generalizing s with
  | nil => rfl
  | cons a rest ih =>
    obtain ⟨first, others⟩ := List.forall_mem_cons.mp outside
    rw [takeAll_cons, takeAll_cons, take_retime s t first, ih _ others]

theorem happen_retime (quiet : s.Quiet) {t : Timing} (running : t.paused = false) :
    (s.retime t).happen event = ((s.happen event).1.retime t, (s.happen event).2) := by
  cases event with
  | frame =>
    have quiet' : (s.retime t).Quiet := ⟨running, quiet.inputs⟩
    have outside : ∀ a ∈ quietFrame, a.outside = true := by decide
    rw [happen, happen, quiet.frame.1, quiet'.frame.1, takeAll_retime s t outside]
  | instruction =>
    rw [happen, happen, stepMachine_eq, stepMachine_eq, operate_retime]
    rfl

/-- An event by itself leaves the clocks alone. -/
theorem Quiet.timing_happen (quiet : s.Quiet) (event : Event) :
    (s.happen event).1.timing = s.timing := by
  have same : s.happen event = _ := happen_retime (t := s.timing) quiet quiet.running
  rw [same]
  rfl

theorem inputs_operate {ι : Type} (s : Scheduler Rat ι) (operation : Operation) :
    (s.operate operation).inputs = s.inputs := by
  unfold operate
  dsimp only
  split <;> rfl

theorem inputs_take {ι : Type} [InputDevice ι] (s : Scheduler Rat ι) {a : Action Rat}
    (poll : a ≠ .poll) (collect : a ≠ .collect) : (s.take a).inputs = s.inputs := by
  cases a with
  | poll => exact absurd rfl poll
  | collect => exact absurd rfl collect
  | instruction => exact inputs_operate _ _
  | operate operation => exact inputs_operate _ _
  | render =>
    simp only [take, render]
    split
    · split <;> rfl
    · rfl
  | buzzer =>
    simp only [take, updateBuzzer]
    split <;> rfl
  | count =>
    simp only [take, countFrame]
    split <;> rfl
  | rest =>
    simp only [take, Scheduler.rest]
    split <;> rfl
  | _ => rfl

theorem inputs_takeAll (s : Scheduler Rat Playback) {actions : List (Action Rat)}
    (h : ∀ a ∈ actions, a ≠ .poll ∧ a ≠ .collect) : (s.takeAll actions).inputs = s.inputs := by
  induction actions generalizing s with
  | nil => rfl
  | cons a rest ih =>
    obtain ⟨first, others⟩ := List.forall_mem_cons.mp h
    exact (ih _ others).trans (s.inputs_take first.1 first.2)

theorem Quiet.happen (quiet : s.Quiet) (event : Event) : (s.happen event).1.Quiet where
  running := (congrArg Timing.paused (quiet.timing_happen event)).trans quiet.running
  inputs := by
    cases event with
    | frame =>
      have inputs := quiet.poll.1
      have finish : ∀ a : Action Rat, a ∈ finishActions → a ≠ .poll ∧ a ≠ .collect := by decide
      rw [Scheduler.happen, quiet.frame.1, quietFrame, takeAll_cons, takeAll_cons,
        inputs_takeAll _ finish]
      exact ⟨inputs.script, nofun⟩
    | instruction =>
      rw [Scheduler.happen, stepMachine_eq, inputs_operate]
      exact quiet.inputs

theorem Quiet.spend (quiet : s.Quiet) (event : Event) : (s.spend event).Quiet := by
  cases event <;> exact ⟨quiet.running, quiet.inputs⟩

/-- What a quiet scheduler does for an event. -/
def quietActions : Event → List (Action Rat)
  | .frame => .begin :: quietFrame
  | .instruction => [.instruction]

theorem Quiet.performActions (quiet : s.Quiet) (event : Event) :
    s.performActions event = quietActions event := by
  cases event with
  | frame => exact congrArg _ (quiet.spend .frame).frame.2
  | instruction => rfl

/-! ## More time -/

/-- The scheduler when more time has passed. -/
def lapse (s : Scheduler Rat Playback) (span : Rat) : Scheduler Rat Playback :=
  s.retime { s.timing with core := s.core + span, timer := s.timer + span }

theorem lapse_lapse (s : Scheduler Rat Playback) (span more : Rat) :
    (s.lapse span).lapse more = s.lapse (span + more) := by
  simp only [lapse, retime, timing, add_assoc]

theorem charge_eq_lapse (running : s.paused = false) {elapsed : Rat}
    (inside : 0 ≤ elapsed ∧ elapsed ≤ 1 / 4) : s.charge elapsed = s.lapse elapsed := by
  have clamped : clampElapsed elapsed = elapsed := by
    rw [clampElapsed_eq, max_eq_left inside.1, min_eq_left inside.2]
  simp only [charge, clamped, running, Bool.false_eq_true, if_false, lapse, retime, timing]

theorem spend_lapse (s : Scheduler Rat Playback) (event : Event) (span : Rat) :
    (s.lapse span).spend event = (s.spend event).lapse span := by
  cases event with
  | frame => simp only [spend, lapse, retime, timing, sub_add_eq_add_sub]
  | instruction =>
    have interval : (s.lapse span).coreInterval = s.coreInterval := rfl
    simp only [spend, interval]
    simp only [lapse, retime, timing, sub_add_eq_add_sub]

theorem Quiet.lapse (quiet : s.Quiet) (span : Rat) : (s.lapse span).Quiet :=
  ⟨quiet.running, quiet.inputs⟩

theorem Quiet.perform (quiet : s.Quiet) (performed : s.perform event = (s', result)) : s'.Quiet := by
  have still := (quiet.spend event).happen event
  rwa [← perform_eq_happen, performed] at still

theorem happen_lapse (quiet : s.Quiet) (event : Event) (span : Rat) :
    (s.lapse span).happen event = ((s.happen event).1.lapse span, (s.happen event).2) := by
  have same := quiet.timing_happen event
  have later : (s.happen event).1.lapse span = (s.happen event).1.retime
      { s.timing with core := s.timing.core + span, timer := s.timing.timer + span } := by
    rw [← same]
    rfl
  rw [later]
  exact happen_retime quiet quiet.running

/-- What comes next comes next as well when more time has passed. -/
theorem dueEvent_lapse (due : s.dueEvent = some event) {span : Rat} (more : 0 ≤ span) :
    (s.lapse span).dueEvent = some event := by
  cases event with
  | frame =>
    obtain ⟨due, order⟩ := dueEvent_eq_frame_iff.mp due
    refine dueEvent_eq_frame_iff.mpr ⟨?_, ?_⟩
    · show 1 / 60 ≤ s.timer + span + tolerance
      linarith
    · show s.core + span - s.coreInterval ≤ s.timer + span - 1 / 60
      linarith
  | instruction =>
    obtain ⟨due, order⟩ := dueEvent_eq_instruction_iff.mp due
    refine dueEvent_eq_instruction_iff.mpr ⟨?_, ?_⟩
    · show s.coreInterval ≤ s.core + span + tolerance
      linarith
    · show s.timer + span - 1 / 60 < s.core + span - s.coreInterval
      linarith

/-- One round of the loop is the same round when more time has passed. -/
theorem Quiet.round_lapse (quiet : s.Quiet) (due : s.dueEvent = some event)
    (performed : s.perform event = (s', result)) {span : Rat} (more : 0 ≤ span) :
    s'.Quiet ∧ (s.lapse span).dueEvent = some event ∧
      (s.lapse span).perform event = (s'.lapse span, result) ∧
      (s.lapse span).performActions event = s.performActions event := by
  refine ⟨quiet.perform performed, dueEvent_lapse due more, ?_, ?_⟩
  · rw [perform_eq_happen] at performed ⊢
    rw [spend_lapse, happen_lapse (quiet.spend event), performed]
  · rw [quiet.performActions, (quiet.lapse span).performActions]

/-- A loop that is entered again when more time has passed goes on where it was left. -/
theorem PaysOut.append_lapse (paid : PaysOut s actions s' result) (quiet : s.Quiet)
    (well : result = .ok false) {span : Rat} (more : 0 ≤ span) {result' : Except Failure Bool}
    (again : PaysOut (s'.lapse span) rest s'' result') :
    PaysOut (s.lapse span) (actions ++ rest) s'' result' := by
  -- On the first run: its rounds are made again, and where it settled the second run takes over.
  induction paid with
  | settled => exact again
  | stopped _ _ stops => exact absurd well stops
  | next due performed _ ih =>
    obtain ⟨still, due', performed', actions⟩ := quiet.round_lapse due performed more
    rw [List.append_assoc, ← actions]
    exact .next due' performed' (ih still well again)

/-- A loop that was stopped would have been stopped by the same event with more time. -/
theorem PaysOut.stopped_lapse (paid : PaysOut s actions s' result) (quiet : s.Quiet)
    (stops : result ≠ .ok false) {span : Rat} (more : 0 ≤ span) :
    PaysOut (s.lapse span) actions (s'.lapse span) result := by
  induction paid with
  | settled => exact absurd rfl stops
  | stopped due performed stops =>
    obtain ⟨_, due', performed', actions⟩ := quiet.round_lapse due performed more
    rw [← actions]
    exact .stopped due' performed' stops
  | next due performed _ ih =>
    obtain ⟨still, due', performed', actions⟩ := quiet.round_lapse due performed more
    rw [← actions]
    exact .next due' performed' (ih still stops)

/-! ## Slices -/

/-- The events that are performed, in order. -/
def eventsIn (actions : List (Action Rat)) : List Event := actions.filterMap Action.event?

theorem eventsIn_append (actions rest : List (Action Rat)) :
    eventsIn (actions ++ rest) = eventsIn actions ++ eventsIn rest := List.filterMap_append

theorem PaysOut.quiet (paid : PaysOut s actions s' result) (quiet : s.Quiet) : s'.Quiet := by
  induction paid with
  | settled => exact quiet
  | stopped _ performed _ => exact quiet.perform performed
  | next _ performed _ ih => exact ih (quiet.perform performed)

/-- Time that passes in slices is paid out as if it had passed at once. -/
theorem paysOut_slices (quiet : s.Quiet) (positive : 0 < s.speed) {slices : List Rat}
    (nonempty : slices ≠ []) (inside : ∀ e ∈ slices, 0 ≤ e ∧ e ≤ 1 / 4) :
    ∃ actions t, PaysOut (s.lapse slices.sum) actions
        ((s.attempt (slices.map .advance)).1.retime t) (s.attempt (slices.map .advance)).2 ∧
      eventsIn (s.recorded (slices.map .advance)) = eventsIn actions := by
  induction slices generalizing s with
  | nil => exact absurd rfl nonempty
  | cons e rest ih =>
    obtain ⟨first, others⟩ := List.forall_mem_cons.mp inside
    have nonneg : 0 ≤ rest.sum := List.sum_nonneg fun e member => (others e member).1
    have sum : s.lapse (e :: rest).sum = (s.lapse e).lapse rest.sum := by
      rw [lapse_lapse, List.sum_cons]
    obtain ⟨actions, done, paid⟩ := paysOut_advance positive e
    rw [charge_eq_lapse quiet.running first] at paid
    have paid : PaysOut (s.lapse e) actions (s.move (.advance e)) (s.answer (.advance e)) := paid
    have events : eventsIn (s.moveActions (.advance e)) = eventsIn actions := by
      rw [done]
      rfl
    rw [List.map_cons, sum]
    by_cases well : s.answer (.advance e) = .ok false
    · rw [(attempt_cons _ well).1, recorded_cons _ well, eventsIn_append, events]
      by_cases last : rest = []
      · subst last
        refine ⟨actions, (s.move (.advance e)).timing, ?_, List.append_nil _⟩
        have now : (s.lapse e).lapse [].sum = s.lapse e := by
          rw [lapse_lapse, List.sum_nil, add_zero]
        rw [now]
        rw [well] at paid
        exact paid
      · obtain ⟨actions', t, paid', events'⟩ :=
          ih (paid.quiet (quiet.lapse e)) ((s.speed_move _).symm ▸ positive) last others
        refine ⟨actions ++ actions', t, paid.append_lapse (quiet.lapse e) well nonneg paid', ?_⟩
        rw [eventsIn_append, events']
    · rw [(attempt_cons_of_stopped (rest.map Move.advance) well).1]
      refine ⟨actions, ((s.move (.advance e)).lapse rest.sum).timing,
        paid.stopped_lapse (quiet.lapse e) well nonneg, ?_⟩
      rw [recorded_cons_of_stopped _ well, events]

end Scheduler

end Chip8
