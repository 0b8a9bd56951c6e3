import Mathlib.Data.Rat.Floor
import Mathlib.Tactic.Linarith
import Chip8.Proofs.Trail

/-! Exact time: what is due, what each action does to the clocks, and the loop that pays out time. Here
the loop has no bound: it goes on until nothing is due or something stops it. With positive speed it
always ends, and within the bound of the scheduler. -/

namespace Chip8

namespace TimeLine

@[simp] theorem zero_eq : (zero : Rat) = 0 := by
  show mkRat 0 1 = 0
  norm_num [Rat.mkRat_eq_div]

@[simp] theorem frameInterval_eq : (frameInterval : Rat) = 1 / 60 := by
  show mkRat 1 60 = _
  norm_num [Rat.mkRat_eq_div]

@[simp] theorem maxBacklog_eq : (maxBacklog : Rat) = 1 / 4 := by
  show mkRat 1 4 = _
  norm_num [Rat.mkRat_eq_div]

@[simp] theorem tolerance_eq : (tolerance : Rat) = 1 / 10 ^ 9 := by
  show mkRat 1 1000000000 = _
  norm_num [Rat.mkRat_eq_div]

theorem fits_eq (span interval : Rat) : fits span interval = ⌊span / interval⌋₊ := rfl

variable {span interval : Rat}

theorem fits_pos (positive : 0 < interval) (h : interval ≤ span) : 0 < fits span interval :=
  Nat.floor_pos.mpr ((one_le_div positive).mpr h)

theorem fits_sub (positive : 0 < interval) (h : interval ≤ span) :
    fits (span - interval) interval + 1 = fits span interval := by
  have sub : (span - interval) / interval = span / interval - 1 := by
    rw [sub_div, div_self positive.ne']
  have fits := fits_pos positive h
  rw [fits_eq] at fits
  rw [fits_eq, fits_eq, sub, Nat.floor_sub_one]
  omega

end TimeLine

namespace Scheduler

open TimeLine

variable {ι : Type} {s s' : Scheduler Rat ι}

theorem coreInterval_eq (s : Scheduler Rat ι) : s.coreInterval = 1 / s.speed := by
  show mkRat 1 s.speed = _
  rw [Rat.mkRat_eq_div]
  norm_num

theorem coreInterval_of_speed (same : s'.speed = s.speed) : s'.coreInterval = s.coreInterval := by
  rw [coreInterval_eq, coreInterval_eq, same]

theorem coreInterval_pos (positive : 0 < s.speed) : 0 < s.coreInterval := by
  rw [coreInterval_eq]
  positivity

theorem clampElapsed_eq (elapsed : Rat) : clampElapsed elapsed = min (max elapsed 0) (1 / 4) := by
  simp only [clampElapsed, zero_eq, maxBacklog_eq]
  rcases lt_or_ge elapsed 0 with negative | nonnegative
  · rw [if_pos negative, max_eq_right negative.le, if_neg (by norm_num), min_eq_left (by norm_num)]
  · rw [if_neg (not_lt.mpr nonnegative), max_eq_left nonnegative]
    split
    · next large => exact (min_eq_right large.le).symm
    · next small => exact (min_eq_left (not_lt.mp small)).symm

/-! ## What is due -/

theorem frameDue_iff (s : Scheduler Rat ι) : s.frameDue = true ↔ 1 / 60 ≤ s.timer + tolerance := by
  rw [frameDue, decide_eq_true_iff, frameInterval_eq]

theorem coreDue_iff (s : Scheduler Rat ι) : s.coreDue = true ↔ s.coreInterval ≤ s.core + tolerance := by
  rw [coreDue, decide_eq_true_iff]

/-- A frame comes next if it is due, and has waited as long as the next instruction. -/
theorem dueEvent_eq_frame_iff : s.dueEvent = some .frame ↔
    1 / 60 ≤ s.timer + tolerance ∧ s.core - s.coreInterval ≤ s.timer - 1 / 60 := by
  have frames := s.frameDue_iff
  have instructions := s.coreDue_iff
  unfold dueEvent
  rw [frameInterval_eq]
  split
  · next first =>
    simp only [Bool.and_eq_true, Bool.or_eq_true, Bool.not_eq_true', decide_eq_true_eq] at first
    obtain ⟨due, order⟩ := first
    have due := frames.mp due
    refine iff_of_true rfl ⟨due, ?_⟩
    rcases order with later | order
    · have later := mt instructions.mpr (Bool.not_eq_true _ ▸ later)
      linarith
    · exact order
  · next other =>
    refine iff_of_false (by split <;> simp) fun next => other ?_
    obtain ⟨due, order⟩ := next
    simp only [frames.mpr due, order, decide_true, Bool.or_true, Bool.and_self]

theorem dueEvent_eq_instruction_iff : s.dueEvent = some .instruction ↔
    s.coreInterval ≤ s.core + tolerance ∧ s.timer - 1 / 60 < s.core - s.coreInterval := by
  by_cases frame : s.dueEvent = some .frame
  · have order := (dueEvent_eq_frame_iff.mp frame).2
    exact iff_of_false (by simp [frame]) fun later => absurd order (not_le.mpr later.2)
  · have instructions := s.coreDue_iff
    have late := mt dueEvent_eq_frame_iff.mpr frame
    unfold dueEvent at frame ⊢
    split at frame
    · exact absurd rfl frame
    · next other =>
      rw [if_neg other]
      cases due : s.coreDue with
      | false =>
        have early := mt instructions.mpr (Bool.not_eq_true _ ▸ due)
        exact iff_of_false (by simp) fun h => early h.1
      | true =>
        have due := instructions.mp due
        refine iff_of_true rfl ⟨due, ?_⟩
        by_contra order
        exact late ⟨by linarith, by linarith⟩

theorem dueEvent_eq_none_iff :
    s.dueEvent = none ↔ s.timer + tolerance < 1 / 60 ∧ s.core + tolerance < s.coreInterval := by
  rw [← not_le, ← not_le, ← frameDue_iff, ← coreDue_iff]
  unfold dueEvent
  cases s.frameDue <;> cases s.coreDue <;> simp
  split <;> simp

/-! ## Actions and the clocks -/

/-- The part of a scheduler that keeps time. -/
structure Timing where
  speed : Nat
  core : Rat
  timer : Rat
  paused : Bool

def timing (s : Scheduler Rat ι) : Timing := ⟨s.speed, s.core, s.timer, s.paused⟩

/-- The scheduler with other clocks. -/
def retime (s : Scheduler Rat ι) (t : Timing) : Scheduler Rat ι :=
  { s with speed := t.speed, core := t.core, timer := t.timer, paused := t.paused }

/-- What an action does to the clocks. -/
def Timing.take (t : Timing) : Action Rat → Timing
  | .charge elapsed => { t with
      timer := t.timer + clampElapsed elapsed
      core := if t.paused then t.core else t.core + clampElapsed elapsed }
  | .begin => { t with timer := t.timer - 1 / 60 }
  | .instruction => { t with core := t.core - 1 / t.speed }
  | .pause => { t with paused := true, core := 0 }
  | .resume => { t with paused := false }
  | .poll | .collect | .operate _ | .tick | .buzzer | .render | .count | .finish | .rest => t

theorem SameClocks.timing (same : s.SameClocks s') : s'.timing = s.timing := by
  simp only [Scheduler.timing, same.speed, same.core, same.timer, same.paused]

/-- The clocks when no time has passed: only a pause sets that of the instructions, and back to zero. -/
structure Untimed (s s' : Scheduler Rat ι) : Prop where
  speed : s'.speed = s.speed
  timer : s'.timer = s.timer
  core : s'.core = s.core ∨ s'.core = 0

theorem SameClocks.untimed (h : s.SameClocks s') : s.Untimed s' := ⟨h.speed, h.timer, .inl h.core⟩

theorem Untimed.trans {s'' : Scheduler Rat ι} (h : s.Untimed s') (h' : s'.Untimed s'') :
    s.Untimed s'' where
  speed := h'.speed.trans h.speed
  timer := h'.timer.trans h.timer
  core := by
    rcases h'.core with kept | zero
    · exact h.core.imp kept.trans kept.trans
    · exact .inr zero

end Scheduler

/-- What commands of the user come to, and what a host does between advances. -/
def Action.isCommand {τ : Type} : Action τ → Bool
  | pause | resume | operate _ | render | finish | rest => true
  | charge _ | instruction | begin | poll | collect | tick | buzzer | count => false

/-- Actions that neither add time nor take any. -/
def Action.keepsTime {τ : Type} : Action τ → Bool
  | charge _ | instruction | begin => false
  | pause | resume | poll | collect | operate _ | tick | buzzer | render | count | finish | rest => true

theorem Action.keepsTime_of_isCommand {τ : Type} {a : Action τ} (h : a.isCommand = true) :
    a.keepsTime = true := by
  cases a <;> first | rfl | cases h

/-- Actions that know nothing of the clocks. -/
def Action.outside {τ : Type} : Action τ → Bool
  | charge _ | instruction | begin | pause | resume | rest => false
  | poll | collect | operate _ | tick | buzzer | render | count | finish => true

namespace Scheduler

open TimeLine

variable {ι : Type}

theorem operate_retime (s : Scheduler Rat ι) (t : Timing) (operation : Operation) :
    (s.retime t).operate operation = (s.operate operation).retime t := by
  simp only [operate, retime]
  cases (s.machine.answer operation).trace <;> rfl

theorem render_retime (s : Scheduler Rat ι) (t : Timing) :
    (s.retime t).render = s.render.retime t := by
  by_cases same : s.shown = some s.machine.display.consumeDirty.2.size <;>
    cases dirty : s.machine.display.consumeDirty.1 <;>
    simp only [render, retime, same, dirty, if_true, if_false, Bool.false_eq_true] <;> rfl

variable [InputDevice ι]

theorem take_retime (s : Scheduler Rat ι) (t : Timing) {a : Action Rat} (outside : a.outside = true) :
    (s.retime t).take a = (s.take a).retime t := by
  cases a with
  | charge | instruction | begin | pause | resume | rest => cases outside
  | poll | collect | tick | finish => rfl
  | operate operation => exact s.operate_retime t operation
  | render => exact s.render_retime t
  | buzzer =>
    by_cases same : s.machine.timers.soundActive = s.buzzer
    · simp only [take, updateBuzzer, retime, same, if_true]
    · simp only [take, updateBuzzer, retime, same, if_false]
      rfl
  | count =>
    by_cases full : (s.frames + 1) % 60 = 0
    · simp only [take, countFrame, retime, full, if_true]
      rfl
    · simp only [take, countFrame, retime, full, if_false]

theorem timing_take (s : Scheduler Rat ι) (a : Action Rat) : (s.take a).timing = s.timing.take a := by
  cases a with
  | charge | resume | poll | collect | tick | finish => rfl
  | begin => simp only [take, spend, timing, Timing.take, frameInterval_eq]
  | instruction =>
    have stepped : (s.take .instruction).timing = (s.spend .instruction).timing :=
      (sameClocks_operate _ _).timing
    rw [stepped]
    simp only [spend, timing, Timing.take, coreInterval_eq]
  | pause => simp only [take, pause, timing, Timing.take, zero_eq]
  | operate operation => exact (s.sameClocks_operate operation).timing
  | buzzer => exact s.sameClocks_updateBuzzer.timing
  | render => exact s.sameClocks_render.timing
  | count => exact s.sameClocks_countFrame.timing
  | rest => exact s.sameClocks_rest.timing

theorem untimed_take (s : Scheduler Rat ι) {a : Action Rat} (keeps : a.keepsTime = true) :
    s.Untimed (s.take a) := by
  have timing := s.timing_take a
  cases a with
  | charge | instruction | begin => cases keeps
  | pause => exact ⟨rfl, rfl, .inr zero_eq⟩
  | _ =>
    exact ⟨congrArg Timing.speed timing, congrArg Timing.timer timing,
      .inl (congrArg Timing.core timing)⟩

/-- Nothing changes the speed. -/
theorem speed_takeAll (s : Scheduler Rat ι) (actions : List (Action Rat)) :
    (s.takeAll actions).speed = s.speed := by
  induction actions generalizing s with
  | nil => rfl
  | cons a rest ih =>
    have first : (s.take a).speed = s.speed := by
      show (s.take a).timing.speed = s.timing.speed
      rw [timing_take]
      cases a <;> rfl
    exact (ih _).trans first

theorem speed_perform (s : Scheduler Rat ι) (event : Event) :
    (s.perform event).1.speed = s.speed := by
  rw [perform_eq, speed_takeAll]

theorem speed_move (s : Scheduler Rat ι) (m : Move Rat) : (s.move m).speed = s.speed := by
  rw [(s.path_move m).takeAll_eq, speed_takeAll]

/-! ## Actions of a frame -/

variable {s s' s'' : Scheduler Rat ι} {actions rest : List (Action Rat)} {event : Event}
  {a : Action Rat} {result : Except Failure Bool}

omit [InputDevice ι] in
theorem isCommand_of_mem_singleStepActions (h : a ∈ s.singleStepActions) : a.isCommand = true := by
  rw [singleStepActions] at h
  rcases List.mem_cons.mp h with rfl | later
  · rfl
  · split at later
    · rcases List.mem_pair.mp later with rfl | rfl <;> rfl
    · cases later

omit [InputDevice ι] in
theorem isCommand_of_mem_obeyActions {c : HostCommand} (h : a ∈ s.obeyActions c) :
    a.isCommand = true := by
  cases c with
  | togglePause =>
    rw [obeyActions] at h
    split at h <;> rw [List.mem_singleton.mp h] <;> rfl
  | step =>
    rw [obeyActions] at h
    split at h
    · exact isCommand_of_mem_singleStepActions h
    · cases h

omit [InputDevice ι] in
theorem isCommand_of_mem_obeyAllActions {commands : List HostCommand}
    (h : a ∈ s.obeyAllActions commands) : a.isCommand = true := by
  induction commands generalizing s with
  | nil => cases h
  | cons c rest ih =>
    rw [obeyAllActions, List.mem_append] at h
    rcases h with first | later
    · exact isCommand_of_mem_obeyActions first
    · split at later
      · exact ih later
      · cases later

/-- A frame neither adds time nor takes any. -/
theorem keepsTime_of_mem_frameActions (h : a ∈ s.frameActions) : a.keepsTime = true := by
  have finishes : ∀ a : Action Rat, a ∈ finishActions → a.keepsTime = true := by
    simp [finishActions, Action.keepsTime]
  rcases s.frameActions_cases with polled | ⟨rest, ends, all⟩
  · rw [polled, List.mem_singleton] at h
    rw [h]
    rfl
  · rw [all, List.mem_cons, List.mem_cons, List.mem_append] at h
    rcases h with rfl | rfl | command | finish
    · rfl
    · rfl
    · exact Action.keepsTime_of_isCommand (isCommand_of_mem_obeyAllActions command)
    · rcases ends with rfl | rfl
      · cases finish
      · exact finishes a finish

theorem untimed_takeAll (keeps : ∀ a ∈ actions, a.keepsTime = true) :
    s.Untimed (s.takeAll actions) := by
  induction actions generalizing s with
  | nil => exact ⟨rfl, rfl, .inl rfl⟩
  | cons a rest ih =>
    obtain ⟨first, others⟩ := List.forall_mem_cons.mp keeps
    exact (s.untimed_take first).trans (ih others)

/-- Of all that an event does, only what it spends counts for the clocks, and pauses. -/
theorem untimed_perform (s : Scheduler Rat ι) (event : Event) :
    (s.spend event).Untimed (s.perform event).1 := by
  cases event with
  | frame =>
    rw [perform_eq]
    exact untimed_takeAll (s := s.spend .frame) fun _ => keepsTime_of_mem_frameActions
  | instruction =>
    rw [perform_instruction]
    exact (sameClocks_operate (s.spend .instruction) .step).untimed

/-! ## Moves that let no time pass -/

theorem isCommand_of_mem_moveActions {m : Move Rat} (still : m.advances = false)
    (h : a ∈ s.moveActions m) : a.isCommand = true := by
  cases m with
  | advance => cases still
  | pause | resume | operate | rest =>
    rw [List.mem_singleton.mp h]
    rfl
  | singleStep => exact isCommand_of_mem_singleStepActions h
  | obey c => exact isCommand_of_mem_obeyActions h

theorem untimed_move (s : Scheduler Rat ι) {m : Move Rat} (still : m.advances = false) :
    s.Untimed (s.move m) := by
  rw [(s.path_move m).takeAll_eq]
  exact untimed_takeAll fun _ member =>
    Action.keepsTime_of_isCommand (isCommand_of_mem_moveActions still member)

/-! ## The loop -/

/-- A run of the loop, with what is done in it. -/
inductive PaysOut :
    Scheduler Rat ι → List (Action Rat) → Scheduler Rat ι → Except Failure Bool → Prop
  | settled {s : Scheduler Rat ι} (nothing : s.dueEvent = none) : PaysOut s [] s (.ok false)
  | stopped {s s' : Scheduler Rat ι} {event : Event} {result : Except Failure Bool}
      (due : s.dueEvent = some event) (performed : s.perform event = (s', result))
      (stops : result ≠ .ok false) : PaysOut s (s.performActions event) s' result
  | next {s s' s'' : Scheduler Rat ι} {event : Event} {actions : List (Action Rat)}
      {result : Except Failure Bool} (due : s.dueEvent = some event)
      (performed : s.perform event = (s', .ok false)) (rest : PaysOut s' actions s'' result) :
      PaysOut s (s.performActions event ++ actions) s'' result

/-- The loop performs only what is due. -/
theorem PaysOut.path (h : PaysOut s actions s' result) : Path s actions s' := by
  induction h with
  | settled => exact .nil _
  | @stopped s _ _ _ due performed _ =>
    have path := s.path_perform due
    rwa [performed] at path
  | @next s _ _ _ _ _ due performed _ ih =>
    have path := s.path_perform due
    rw [performed] at path
    exact path.append ih

/-- A bound of the number of events that are due. A frame may set the instruction clock back to zero,
from where as many instructions are due as fit into the tolerance. -/
def backlog (s : Scheduler Rat ι) : Nat :=
  fits (s.timer + tolerance) (1 / 60) * (fits tolerance s.coreInterval + 1) +
    fits (s.core + tolerance) s.coreInterval

theorem backlog_perform (positive : 0 < s.speed) (due : s.dueEvent = some event) :
    (s.perform event).1.backlog < s.backlog := by
  have interval := coreInterval_pos positive
  obtain ⟨speed, timer, core⟩ := s.untimed_perform event
  have same : (s.perform event).1.coreInterval = s.coreInterval :=
    coreInterval_of_speed (s.speed_perform event)
  rw [backlog, backlog, same, timer]
  cases event with
  | frame =>
    have frames := fits_sub (by norm_num) ((dueEvent_eq_frame_iff.mp due).1)
    have timer : (s.spend .frame).timer + tolerance = s.timer + tolerance - 1 / 60 := by
      rw [spend, frameInterval_eq]
      ring
    -- The instructions that a pause may leave due are paid for by the frame.
    have core : fits ((s.perform .frame).1.core + tolerance) s.coreInterval ≤
        fits (s.core + tolerance) s.coreInterval + fits tolerance s.coreInterval := by
      rcases core with kept | zero
      · rw [kept]
        exact Nat.le_add_right _ _
      · rw [zero, zero_add]
        exact Nat.le_add_left _ _
    rw [timer, ← frames, Nat.succ_mul]
    omega
  | instruction =>
    have stepped : (s.perform .instruction).1.core = s.core - s.coreInterval := by
      rw [perform_instruction]
      exact (sameClocks_operate (s.spend .instruction) .step).core
    have core : (s.perform .instruction).1.core + tolerance =
        s.core + tolerance - s.coreInterval := by
      rw [stepped]
      ring
    have instructions := fits_sub interval ((dueEvent_eq_instruction_iff.mp due).1)
    have timer : (s.spend .instruction).timer = s.timer := rfl
    rw [timer, core]
    omega

/-- With enough fuel the loop is left before the fuel is used up. -/
theorem paysOut_payOut (positive : 0 < s.speed) {fuel : Nat} (enough : s.backlog ≤ fuel) :
    PaysOut s (payOutActions fuel s) (payOut fuel s).1 (payOut fuel s).2 := by
  induction fuel generalizing s with
  | zero =>
    cases due : s.dueEvent with
    | none => exact .settled due
    | some event => exact absurd (backlog_perform positive due) (by omega)
  | succ fuel ih =>
    cases due : s.dueEvent with
    | none =>
      simp only [payOut, payOutActions, due]
      exact .settled due
    | some event =>
      have less := backlog_perform positive due
      simp only [payOut, payOutActions, due]
      cases performed : s.perform event with
      | mk s' result =>
        have less : s'.backlog < s.backlog := by simpa only [performed] using less
        have speed : s'.speed = s.speed := by
          rw [← s.speed_perform event, performed]
        cases result with
        | error failure =>
          rw [List.append_nil]
          exact .stopped due performed (by simp)
        | ok quit =>
          cases quit with
          | true =>
            rw [List.append_nil]
            exact .stopped due performed (by simp)
          | false => exact .next due performed (ih (speed ▸ positive) (by omega))

omit [InputDevice ι] in
theorem backlog_le_eventBound (s : Scheduler Rat ι) : s.backlog ≤ s.eventBound := by
  rw [backlog, eventBound, frameInterval_eq, Nat.add_mul]
  exact Nat.add_le_add (Nat.mul_le_mul_left _ (by omega)) (by omega)

/-- Whatever time has passed, to let it pass comes to an end. -/
theorem paysOut_advance (positive : 0 < s.speed) (elapsed : Rat) :
    ∃ actions, s.moveActions (.advance elapsed) = .charge elapsed :: actions ∧
      PaysOut (s.charge elapsed) actions (s.advance elapsed).1 (s.advance elapsed).2 :=
  ⟨_, rfl, paysOut_payOut (s := s.charge elapsed) positive (backlog_le_eventBound _)⟩

/-- A move lets no time pass, or pays out what has passed. -/
theorem move_cases (positive : 0 < s.speed) (m : Move Rat) : m.advances = false ∨
    ∃ elapsed actions, m = .advance elapsed ∧
      s.moveActions (.advance elapsed) = .charge elapsed :: actions ∧
      PaysOut (s.charge elapsed) actions (s.move (.advance elapsed)) (s.answer (.advance elapsed)) := by
  cases m with
  | advance elapsed =>
    obtain ⟨actions, done, paid⟩ := paysOut_advance positive elapsed
    exact .inr ⟨elapsed, actions, rfl, done, paid⟩
  | pause | resume | singleStep | obey | operate | rest => exact .inl rfl

end Scheduler

end Chip8
