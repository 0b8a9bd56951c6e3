import Mathlib.Data.List.Nodup
import Chip8.Proofs.Slicing

/-! The calendar of a scheduler: every event with the time at which it is due. Whatever way time
passes, the loop performs the calendar, up to the first step that fails. -/

namespace Chip8.Scheduler

open TimeLine

/-- An event, and when it is due. -/
structure Due where
  time : Rat
  event : Event
  deriving DecidableEq, Repr

/-- Whether an event comes before another: by time, and frames before instructions that are due at the
same time. -/
def Due.before (a b : Due) : Bool :=
  a.time < b.time || a.time == b.time && (a.event == .frame || b.event == .instruction)

/-- The events of a kind behind the first `done`, as far as they are due up to a bound. -/
def dues (event : Event) (rate : Nat) (bound : Rat) (done : Nat) : List Due :=
  (List.range' (done + 1) (⌊bound * rate⌋₊ - done)).map fun k : Nat => ⟨(k : Rat) / rate, event⟩

/-- What is due up to a bound behind the first frames and instructions, in order. -/
def agenda (speed : Nat) (bound : Rat) (frames instructions : Nat) : List Due :=
  (dues .frame 60 bound frames).merge (dues .instruction speed bound instructions) Due.before

/-- Everything that is due up to a bound, in order. -/
def calendar (speed : Nat) (bound : Rat) : List Due := agenda speed bound 0 0

variable {event : Event} {rate speed done frames instructions : Nat} {bound : Rat} {due : Due}

/-! ## The order of the calendar -/

theorem Due.before_iff {a b : Due} : a.before b = true ↔
    a.time < b.time ∨ a.time = b.time ∧ (a.event = .frame ∨ b.event = .instruction) := by
  simp only [before, Bool.or_eq_true, Bool.and_eq_true, decide_eq_true_eq, beq_iff_eq]

theorem Due.before_trans (a b c : Due) (h : a.before b = true) (h' : b.before c = true) :
    a.before c = true := by
  rw [before_iff] at h h' ⊢
  rcases h with earlier | ⟨same, order⟩ <;> rcases h' with earlier' | ⟨same', order'⟩
  · exact .inl (earlier.trans earlier')
  · exact .inl (same' ▸ earlier)
  · exact .inl (same ▸ earlier')
  · refine .inr ⟨same.trans same', ?_⟩
    rcases order with frame | instruction
    · exact .inl frame
    · exact .inr (order'.resolve_left fun frame => nomatch frame.symm.trans instruction)

theorem Due.before_total (a b : Due) : (a.before b || b.before a) = true := by
  rw [Bool.or_eq_true, before_iff, before_iff]
  rcases lt_trichotomy a.time b.time with earlier | same | later
  · exact .inl (.inl earlier)
  · cases ea : a.event with
    | frame => exact .inl (.inr ⟨same, .inl rfl⟩)
    | instruction => exact .inr (.inr ⟨same.symm, .inr rfl⟩)
  · exact .inr (.inl later)

theorem mem_dues (positive : 0 < rate) : due ∈ dues event rate bound done ↔
    ∃ k : Nat, done < k ∧ due = ⟨(k : Rat) / rate, event⟩ ∧ due.time ≤ bound := by
  have rated : (0 : Rat) < rate := Nat.cast_pos.mpr positive
  simp only [dues, List.mem_map, List.mem_range'_1]
  constructor
  · rintro ⟨k, inside, rfl⟩
    refine ⟨k, by omega, rfl, (div_le_iff₀ rated).mpr ?_⟩
    exact (Nat.le_floor_iff' (by omega)).mp (by omega)
  · rintro ⟨k, behind, rfl, early⟩
    have within : k ≤ ⌊bound * rate⌋₊ := Nat.le_floor ((div_le_iff₀ rated).mp early)
    exact ⟨k, by omega, rfl⟩

theorem pairwise_dues (positive : 0 < rate) :
    (dues event rate bound done).Pairwise fun a b => a.before b = true := by
  have rated : (0 : Rat) < rate := Nat.cast_pos.mpr positive
  refine List.pairwise_map.mpr ((List.pairwise_lt_range' 1).imp fun {j k} less => ?_)
  exact Due.before_iff.mpr (.inl (div_lt_div_of_pos_right (Nat.cast_lt.mpr less) rated))

theorem nodup_dues (positive : 0 < rate) : (dues event rate bound done).Nodup := by
  have rated : (rate : Rat) ≠ 0 := Nat.cast_ne_zero.mpr positive.ne'
  refine List.Nodup.map (fun j k same => ?_) List.nodup_range'
  exact Nat.cast_injective ((div_left_inj' rated).mp (Due.mk.inj same).1)

/-- A list of everything that is due up to a bound, in order. There is only one such list. -/
structure IsCalendar (speed : Nat) (bound : Rat) (plan : List Due) : Prop where
  mem_iff : ∀ due, due ∈ plan ↔
    (∃ k : Nat, 0 < k ∧ due = ⟨(k : Rat) / 60, .frame⟩ ∧ due.time ≤ bound) ∨
      ∃ k : Nat, 0 < k ∧ due = ⟨(k : Rat) / speed, .instruction⟩ ∧ due.time ≤ bound
  once : plan.Nodup
  inOrder : plan.Pairwise fun a b => a.before b = true

theorem isCalendar_calendar (positive : 0 < speed) (bound : Rat) :
    IsCalendar speed bound (calendar speed bound) where
  mem_iff due := by
    rw [calendar, agenda, List.mem_merge, mem_dues (by decide), mem_dues positive]
    rfl
  once := by
    have apart : (dues .frame 60 bound 0).Disjoint (dues .instruction speed bound 0) := by
      intro due frame instruction
      obtain ⟨_, _, rfl, _⟩ := (mem_dues (by decide)).mp frame
      obtain ⟨_, _, same, _⟩ := (mem_dues positive).mp instruction
      cases (Due.mk.inj same).2
    exact (List.merge_perm_append Due.before).nodup_iff.mpr
      ((nodup_dues (by decide)).append (nodup_dues positive) apart)
  inOrder := List.pairwise_merge Due.before_trans Due.before_total _ _ (pairwise_dues (by decide))
    (pairwise_dues positive)

theorem dues_cons (positive : 0 < rate) (here : ((done + 1 : Nat) : Rat) / rate ≤ bound) :
    dues event rate bound done =
      ⟨(done + 1 : Nat) / rate, event⟩ :: dues event rate bound (done + 1) := by
  have enough : done + 1 ≤ ⌊bound * rate⌋₊ :=
    Nat.le_floor ((div_le_iff₀ (Nat.cast_pos.mpr positive)).mp here)
  obtain ⟨n, more⟩ := Nat.exists_eq_add_of_le enough
  have count : ⌊bound * rate⌋₊ - done = n + 1 := by omega
  have rest : ⌊bound * rate⌋₊ - (done + 1) = n := by omega
  rw [dues, dues, count, rest, List.range'_succ, List.map_cons]

theorem dues_nil (positive : 0 < rate) (later : bound < ((done + 1 : Nat) : Rat) / rate) :
    dues event rate bound done = [] := by
  have few : ⌊bound * rate⌋₊ < done + 1 :=
    (Nat.floor_lt' (Nat.succ_ne_zero done)).mpr ((lt_div_iff₀ (Nat.cast_pos.mpr positive)).mp later)
  have none : ⌊bound * rate⌋₊ - done = 0 := by omega
  rw [dues, none, List.range'_zero, List.map_nil]

/-! ## The calendar, event by event -/

/-- When the next frame is due, with a number of frames done. -/
def frameTime (frames : Nat) : Rat := (frames + 1 : Nat) / 60

def instructionTime (speed instructions : Nat) : Rat := (instructions + 1 : Nat) / speed

theorem agenda_frame (positive : 0 < speed) (here : frameTime frames ≤ bound)
    (order : frameTime frames ≤ instructionTime speed instructions) :
    agenda speed bound frames instructions =
      ⟨frameTime frames, .frame⟩ :: agenda speed bound (frames + 1) instructions := by
  have first : dues .frame 60 bound frames =
    ⟨frameTime frames, .frame⟩ :: dues .frame 60 bound (frames + 1) := dues_cons (by decide) here
  rw [agenda, agenda, first]
  rcases le_or_gt (instructionTime speed instructions) bound with due | later
  · rw [dues_cons positive due]
    refine List.cons_merge_cons_pos _ _ _ (Due.before_iff.mpr ?_)
    rcases order.lt_or_eq with earlier | same
    · exact .inl earlier
    · exact .inr ⟨same, .inl rfl⟩
  · rw [dues_nil positive later, List.merge_right, List.merge_right]

theorem agenda_instruction (positive : 0 < speed) (here : instructionTime speed instructions ≤ bound)
    (order : instructionTime speed instructions < frameTime frames) :
    agenda speed bound frames instructions =
      ⟨instructionTime speed instructions, .instruction⟩ ::
        agenda speed bound frames (instructions + 1) := by
  have first : dues .instruction speed bound instructions =
    ⟨instructionTime speed instructions, .instruction⟩ ::
      dues .instruction speed bound (instructions + 1) := dues_cons positive here
  rw [agenda, agenda, first]
  rcases le_or_gt (frameTime frames) bound with due | later
  · have second : dues .frame 60 bound frames = _ := dues_cons (by decide) due
    rw [second]
    refine List.cons_merge_cons_neg _ _ _ fun before => ?_
    rcases Due.before_iff.mp before with earlier | ⟨same, _⟩
    · exact absurd order (not_lt.mpr earlier.le)
    · exact absurd order (not_lt.mpr same.le)
  · have none : dues .frame 60 bound frames = [] := dues_nil (by decide) later
    rw [none, List.nil_merge, List.nil_merge]

theorem agenda_nil (positive : 0 < speed) (frame : bound < frameTime frames)
    (instruction : bound < instructionTime speed instructions) :
    agenda speed bound frames instructions = [] := by
  have none : dues .frame 60 bound frames = [] := dues_nil (by decide) frame
  rw [agenda, none, dues_nil positive instruction, List.nil_merge]

/-! ## Events without time -/

variable {s s' : Scheduler Rat Playback} {plan : List Event} {actions : List (Action Rat)}
  {result : Except Failure Bool}

/-- Performs events without any clocks, up to the first that fails. -/
def carryOut (s : Scheduler Rat Playback) :
    List Event → Scheduler Rat Playback × Except Failure Bool
  | [] => (s, .ok false)
  | event :: rest =>
    match s.happen event with
    | (s, .ok false) => s.carryOut rest
    | stopped => stopped

/-- The events that are performed, with the one that fails. -/
def carried (s : Scheduler Rat Playback) : List Event → List Event
  | [] => []
  | event :: rest => event :: match s.happen event with
    | (s, .ok false) => s.carried rest
    | _ => []

theorem carryOut_cons (well : (s.happen event).2 = .ok false) :
    s.carryOut (event :: plan) = (s.happen event).1.carryOut plan ∧
      s.carried (event :: plan) = event :: (s.happen event).1.carried plan := by
  cases happened : s.happen event with
  | mk s' result =>
    obtain rfl : result = .ok false := by simpa only [happened] using well
    simp only [carryOut, carried, happened, and_self]

theorem carryOut_cons_of_stopped (stops : (s.happen event).2 ≠ .ok false) :
    s.carryOut (event :: plan) = s.happen event ∧ s.carried (event :: plan) = [event] := by
  cases happened : s.happen event with
  | mk s' result =>
    rw [happened] at stops
    simp only [carryOut, carried, happened]
    cases result with
    | error => exact ⟨rfl, rfl⟩
    | ok quit =>
      cases quit with
      | true => exact ⟨rfl, rfl⟩
      | false => exact absurd rfl stops

theorem carryOut_retime (quiet : s.Quiet) {t : Timing} (running : t.paused = false) :
    (s.retime t).carryOut plan = ((s.carryOut plan).1.retime t, (s.carryOut plan).2) ∧
      (s.retime t).carried plan = s.carried plan := by
  induction plan generalizing s with
  | nil => exact ⟨rfl, rfl⟩
  | cons event rest ih =>
    have same : (s.retime t).happen event = _ := happen_retime quiet running
    by_cases well : (s.happen event).2 = .ok false
    · have well' : ((s.retime t).happen event).2 = .ok false := by rw [same, well]
      rw [(carryOut_cons well).1, (carryOut_cons well).2, (carryOut_cons well').1,
        (carryOut_cons well').2, same]
      obtain ⟨out, events⟩ := ih (quiet.happen event)
      exact ⟨out, congrArg _ events⟩
    · have stops : ((s.retime t).happen event).2 ≠ .ok false := by rwa [same]
      rw [(carryOut_cons_of_stopped well).1, (carryOut_cons_of_stopped well).2,
        (carryOut_cons_of_stopped stops).1, (carryOut_cons_of_stopped stops).2, same]
      exact ⟨rfl, rfl⟩

theorem carryOut_lapse (quiet : s.Quiet) (plan : List Event) (span : Rat) :
    (s.lapse span).carryOut plan =
        ((s.carryOut plan).1.retime (s.lapse span).timing, (s.carryOut plan).2) ∧
      (s.lapse span).carried plan = s.carried plan :=
  carryOut_retime quiet quiet.running

/-- A plan is performed as a whole, or to the first step that fails. -/
theorem carried_cases (quiet : s.Quiet) (plan : List Event) :
    (s.carryOut plan).2 = .ok false ∧ s.carried plan = plan ∨
      ∃ before rest failure, plan = before ++ .instruction :: rest ∧
        s.carried plan = before ++ [.instruction] ∧ (s.carryOut before).2 = .ok false ∧
        (s.carryOut before).1.stepMachine.2 = .error failure ∧
        (s.carryOut plan).2 = .error failure := by
  induction plan generalizing s with
  | nil => exact .inl ⟨rfl, rfl⟩
  | cons event rest ih =>
    by_cases well : (s.happen event).2 = .ok false
    · rw [(carryOut_cons well).1, (carryOut_cons well).2]
      rcases ih (quiet.happen event) with ⟨done, all⟩ |
        ⟨before, rest, failure, split, events, done, fails, result⟩
      · exact .inl ⟨done, congrArg _ all⟩
      · refine .inr ⟨event :: before, rest, failure, congrArg _ split, congrArg _ events, ?_, ?_,
          result⟩
        · rw [(carryOut_cons well).1, done]
        · rw [(carryOut_cons well).1, fails]
    · rw [(carryOut_cons_of_stopped well).1, (carryOut_cons_of_stopped well).2]
      cases event with
      | frame => exact absurd (congrArg Prod.snd quiet.frame.1) well
      | instruction =>
        cases stepped : s.stepMachine.2 with
        | ok => exact absurd (by rw [happen, stepped]; rfl) well
        | error failure =>
          exact .inr ⟨[], rest, failure, rfl, rfl, rfl, stepped, by rw [happen, stepped]; rfl⟩

/-! ## The loop and the calendar -/

theorem frameTime_eq (frames : Nat) : frameTime frames = (frames + 1) * (1 / 60) := by
  rw [frameTime, mul_one_div]
  push_cast
  rfl

theorem instructionTime_eq (s : Scheduler Rat Playback) (instructions : Nat) :
    instructionTime s.speed instructions = (instructions + 1) * s.coreInterval := by
  rw [instructionTime, coreInterval_eq, mul_one_div]
  push_cast
  rfl

/-- The event that comes next is the next in the calendar. -/
theorem agenda_of_dueEvent (positive : 0 < s.speed) {passed : Rat}
    (timer : s.timer = passed - frames * (1 / 60))
    (core : s.core = passed - instructions * s.coreInterval) (due : s.dueEvent = some event) :
    (agenda s.speed (passed + tolerance) frames instructions).map Due.event =
      event :: (agenda s.speed (passed + tolerance) (frames + [event].count .frame)
        (instructions + [event].count .instruction)).map Due.event := by
  have next := s.instructionTime_eq instructions
  have frame := frameTime_eq frames
  cases event with
  | frame =>
    obtain ⟨here, order⟩ := dueEvent_eq_frame_iff.mp due
    rw [agenda_frame positive (by linarith) (by linarith)]
    rfl
  | instruction =>
    obtain ⟨here, order⟩ := dueEvent_eq_instruction_iff.mp due
    rw [agenda_instruction positive (by linarith) (by linarith)]
    rfl

theorem agenda_of_settled (positive : 0 < s.speed) {passed : Rat}
    (timer : s.timer = passed - frames * (1 / 60))
    (core : s.core = passed - instructions * s.coreInterval) (settled : s.dueEvent = none) :
    agenda s.speed (passed + tolerance) frames instructions = [] := by
  have next := s.instructionTime_eq instructions
  have frame := frameTime_eq frames
  obtain ⟨early, early'⟩ := dueEvent_eq_none_iff.mp settled
  exact agenda_nil positive (by linarith) (by linarith)

theorem Quiet.perform_eq (quiet : s.Quiet) (performed : s.perform event = (s', result)) :
    s' = (s.happen event).1.retime (s.spend event).timing ∧ result = (s.happen event).2 := by
  have spent : s.spend event = s.retime (s.spend event).timing := by cases event <;> rfl
  rw [perform_eq_happen, spent, happen_retime quiet (quiet.spend event).running] at performed
  obtain ⟨rfl, rfl⟩ := Prod.mk.inj performed
  exact ⟨rfl, rfl⟩

theorem Quiet.eventsIn_performActions (quiet : s.Quiet) (event : Event) :
    eventsIn (s.performActions event) = [event] := by
  rw [quiet.performActions]
  cases event <;> rfl

theorem timer_spend (s : Scheduler Rat Playback) (event : Event) :
    (s.spend event).timer = s.timer - [event].count .frame * (1 / 60) := by
  cases event with
  | frame =>
    show s.timer - frameInterval = s.timer - (1 : Nat) * (1 / 60)
    rw [frameInterval_eq, Nat.cast_one, one_mul]
  | instruction =>
    show s.timer = s.timer - (0 : Nat) * (1 / 60)
    rw [Nat.cast_zero, zero_mul, sub_zero]

theorem core_spend (s : Scheduler Rat Playback) (event : Event) :
    (s.spend event).core = s.core - [event].count .instruction * s.coreInterval := by
  cases event with
  | frame =>
    show s.core = s.core - (0 : Nat) * s.coreInterval
    rw [Nat.cast_zero, zero_mul, sub_zero]
  | instruction =>
    show s.core - s.coreInterval = s.core - (1 : Nat) * s.coreInterval
    rw [Nat.cast_one, one_mul]

/-- The loop performs what is due, in the order of the calendar. -/
theorem PaysOut.follows (paid : PaysOut s actions s' result) (quiet : s.Quiet)
    (positive : 0 < s.speed) {passed : Rat} {frames instructions : Nat}
    (timer : s.timer = passed - frames * (1 / 60))
    (core : s.core = passed - instructions * s.coreInterval) (t : Timing) :
    let plan := (agenda s.speed (passed + tolerance) frames instructions).map Due.event
    eventsIn actions = s.carried plan ∧ result = (s.carryOut plan).2 ∧
      s'.retime t = (s.carryOut plan).1.retime t := by
  intro plan
  -- What the clocks hold says how far the agenda is done, so each round takes its first event.
  induction paid generalizing frames instructions with
  | settled nothing =>
    have none : plan = [] := by
      simp only [plan, agenda_of_settled positive timer core nothing, List.map_nil]
    rw [none]
    exact ⟨rfl, rfl, rfl⟩
  | @stopped s s' event result due performed stops =>
    have next : plan = event :: _ := agenda_of_dueEvent positive timer core due
    obtain ⟨rfl, rfl⟩ := quiet.perform_eq performed
    rw [next, (carryOut_cons_of_stopped stops).1, (carryOut_cons_of_stopped stops).2]
    exact ⟨quiet.eventsIn_performActions event, rfl, rfl⟩
  | @next s s' s'' event actions result due performed _ ih =>
    have next : plan = event :: _ := agenda_of_dueEvent positive timer core due
    have still := quiet.perform performed
    obtain ⟨rfl, well⟩ := quiet.perform_eq performed
    have timer' : (s.spend event).timer =
        passed - (frames + [event].count .frame : Nat) * (1 / 60) := by
      rw [timer_spend, timer]
      push_cast
      ring
    have core' : (s.spend event).core =
        passed - (instructions + [event].count .instruction : Nat) * s.coreInterval := by
      rw [core_spend, core]
      push_cast
      ring
    have speed : (s.spend event).speed = s.speed := by cases event <;> rfl
    have interval : (s.spend event).coreInterval = s.coreInterval := by cases event <;> rfl
    have running : (s.spend event).timing.paused = false := (quiet.spend event).running
    have later := ih still (speed.symm ▸ positive) timer' (interval.symm ▸ core')
    have faster : ((s.happen event).1.retime (s.spend event).timing).speed = s.speed := speed
    rw [faster] at later
    obtain ⟨events, result, state⟩ := later
    obtain ⟨out, same⟩ := carryOut_retime (quiet.happen event) running
    rw [next, (carryOut_cons well.symm).1, (carryOut_cons well.symm).2, eventsIn_append,
      quiet.eventsIn_performActions, events, result, state, out, same]
    exact ⟨rfl, rfl, rfl⟩

/-! ## Slices -/

theorem quiet_of_new {machine : Machine} {inputs : Playback} {speed : Int}
    (built : Scheduler.new machine inputs speed false = .ok s) (quiet : inputs.Quiet) : s.Quiet := by
  obtain ⟨_, rfl⟩ := eq_of_new built
  exact ⟨rfl, quiet⟩

/-- Time in slices carries out the calendar. -/
theorem slices_follow {slices : List Rat} (quiet : s.Quiet) (positive : 0 < s.speed)
    (core : s.core = 0) (timer : s.timer = 0) (nonempty : slices ≠ [])
    (inside : ∀ e ∈ slices, 0 ≤ e ∧ e ≤ 1 / 4) :
    let plan := (calendar s.speed (slices.sum + 1 / 10 ^ 9)).map Due.event
    eventsIn (s.recorded (slices.map .advance)) = s.carried plan ∧
      (s.attempt (slices.map .advance)).2 = (s.carryOut plan).2 ∧
      ∀ t, (s.attempt (slices.map .advance)).1.retime t = (s.carryOut plan).1.retime t := by
  intro plan
  obtain ⟨actions, t, paid, performed⟩ := paysOut_slices quiet positive nonempty inside
  have timer' : (s.lapse slices.sum).timer = slices.sum - (0 : Nat) * (1 / 60) := by
    show s.timer + slices.sum = _
    rw [timer, Nat.cast_zero, zero_mul, sub_zero, zero_add]
  have core' : (s.lapse slices.sum).core =
      slices.sum - (0 : Nat) * (s.lapse slices.sum).coreInterval := by
    show s.core + slices.sum = _
    rw [core, Nat.cast_zero, zero_mul, sub_zero, zero_add]
  have follows : ∀ t', eventsIn actions = (s.lapse slices.sum).carried plan ∧
      (s.attempt (slices.map .advance)).2 = ((s.lapse slices.sum).carryOut plan).2 ∧
      (s.attempt (slices.map .advance)).1.retime t' =
        ((s.lapse slices.sum).carryOut plan).1.retime t' := by
    intro t'
    have followed := paid.follows (quiet.lapse slices.sum) positive timer' core' t'
    rwa [tolerance_eq] at followed
  obtain ⟨out, same⟩ := carryOut_lapse quiet plan slices.sum
  rw [out, same] at follows
  exact ⟨performed.trans (follows t).1, (follows t).2.1, fun t' => (follows t').2.2⟩

/-- Two ways to slice the same time come to the same. -/
structure Alike (s : Scheduler Rat Playback) (slices slices' : List Rat) (plan : List Event) :
    Prop where
  /-- The actions are all that is done, ... -/
  done : (s.attempt (slices.map .advance)).1 = s.takeAll (s.recorded (slices.map .advance))
  done' : (s.attempt (slices'.map .advance)).1 = s.takeAll (s.recorded (slices'.map .advance))
  /-- ... and both times they perform the plan, ... -/
  events : eventsIn (s.recorded (slices.map .advance)) = s.carried plan
  events' : eventsIn (s.recorded (slices'.map .advance)) = s.carried plan
  /-- ... as a whole, or up to the first step that fails. -/
  extent : (s.attempt (slices.map .advance)).2 = .ok false ∧ s.carried plan = plan ∨
    ∃ before rest failure, plan = before ++ .instruction :: rest ∧
      s.carried plan = before ++ [.instruction] ∧ (s.carryOut before).2 = .ok false ∧
      (s.carryOut before).1.stepMachine.2 = .error failure ∧
      (s.attempt (slices.map .advance)).2 = .error failure
  result : (s.attempt (slices'.map .advance)).2 = (s.attempt (slices.map .advance)).2
  machine : (s.attempt (slices'.map .advance)).1.machine = (s.attempt (slices.map .advance)).1.machine
  /-- The calls to the host. -/
  log : (s.attempt (slices'.map .advance)).1.log = (s.attempt (slices.map .advance)).1.log

/-- However time is sliced, a scheduler carries out the calendar. -/
theorem slices_alike {machine : Machine} {script : Nat → List InputAction} {speed : Int}
    {slices slices' : List Rat}
    (built : Scheduler.new machine { script := script } speed false = .ok s)
    (quiet : ∀ n, ∀ action ∈ script n, action.isQuiet = true)
    (nonempty : slices ≠ []) (inside : ∀ e ∈ slices, 0 ≤ e ∧ e ≤ 1 / 4)
    (nonempty' : slices' ≠ []) (inside' : ∀ e ∈ slices', 0 ≤ e ∧ e ≤ 1 / 4)
    (same : slices.sum = slices'.sum) :
    (s.speed : Int) = speed ∧
      IsCalendar s.speed (slices.sum + 1 / 10 ^ 9) (calendar s.speed (slices.sum + 1 / 10 ^ 9)) ∧
      s.Alike slices slices' ((calendar s.speed (slices.sum + 1 / 10 ^ 9)).map Due.event) := by
  obtain ⟨kept, positive, core, timer, _⟩ := of_new built
  have quiet : s.Quiet := quiet_of_new built ⟨quiet, nofun⟩
  obtain ⟨events, result, state⟩ := slices_follow quiet positive core timer nonempty inside
  obtain ⟨events', result', state'⟩ := slices_follow quiet positive core timer nonempty' inside'
  rw [← same] at events' result' state'
  have ends : ∀ t, (s.attempt (slices'.map .advance)).1.retime t =
      (s.attempt (slices.map .advance)).1.retime t := fun t => (state' t).trans (state t).symm
  refine ⟨kept, isCalendar_calendar positive _, {
    done := (s.path_attempt _).takeAll_eq
    done' := (s.path_attempt _).takeAll_eq
    events := events
    events' := events'
    extent := ?_
    result := result'.trans result.symm
    machine := congrArg (·.machine) (ends s.timing)
    log := congrArg (·.log) (ends s.timing) }⟩
  rw [result]
  exact carried_cases quiet _

/-- A twenty-fifth of a second, at once and in halves, while a key is pressed and released. -/
theorem slices_alike_halves :
    let m : Machine := { Machine.new {} false false (.cycle []) with
      memory := (Memory.zeros 0x1000).putAll 0x200 [0x60, 0x01, 0xe0, 0x9e] }
    let script : Nat → List InputAction := fun n => [.key 1 (n == 1)]
    ∃ s : Scheduler Rat Playback,
      Scheduler.new m { script := script } 50 false = .ok s ∧
      eventsIn (s.recorded ([1 / 50, 1 / 50].map .advance)) =
        [.frame, .instruction, .frame, .instruction] ∧
      eventsIn (s.recorded ([1 / 25].map .advance)) =
        [.frame, .instruction, .frame, .instruction] ∧
      (s.attempt ([1 / 25].map .advance)).1.machine =
        (s.attempt ([1 / 50, 1 / 50].map .advance)).1.machine := by
  intro m script
  let s : Scheduler Rat Playback := report
    { machine := m, inputs := { script := script }, speed := 50, core := 0, timer := 0,
      paused := false } 0 0
  have built : Scheduler.new m { script := script } 50 false = .ok s := rfl
  have quiet : ∀ n, ∀ action ∈ script n, action.isQuiet = true := by
    intro n action member
    rw [List.mem_singleton.mp member]
    rfl
  have inside : ∀ e ∈ [(1 / 50 : Rat), 1 / 50], 0 ≤ e ∧ e ≤ 1 / 4 := by norm_num
  have inside' : ∀ e ∈ [(1 / 25 : Rat)], 0 ≤ e ∧ e ≤ 1 / 4 := by norm_num
  obtain ⟨_, _, alike⟩ := slices_alike built quiet (List.cons_ne_nil _ _) inside
    (List.cons_ne_nil _ _) inside' (by norm_num)
  have plan : (calendar 50 ([1 / 50, 1 / 50].sum + 1 / 10 ^ 9)).map Due.event =
      [.frame, .instruction, .frame, .instruction] := by
    rw [calendar, agenda_frame, agenda_instruction, agenda_frame, agenda_instruction, agenda_nil] <;>
      norm_num [frameTime, instructionTime]
  have carried : s.carried ((calendar 50 ([1 / 50, 1 / 50].sum + 1 / 10 ^ 9)).map Due.event) =
      [.frame, .instruction, .frame, .instruction] := by
    rw [plan]
    decide +kernel
  exact ⟨s, built, alike.events.trans carried, alike.events'.trans carried, alike.machine⟩

end Chip8.Scheduler
