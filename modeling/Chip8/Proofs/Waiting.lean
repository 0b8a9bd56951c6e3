import Chip8.Proofs.Backlog

/-! Waiting for the next event, with exact time. Whatever a host has done so far, and whatever failed,
the wait that a running scheduler asks for is the right one: nothing is due before it is over, but for
the tolerance, and something is due from then on. So a host that rests as long as a session tells it
to, and no longer, is back before anything is due. -/

namespace Chip8

namespace TimeLine

@[simp] theorem wakeMargin_eq : (wakeMargin : Rat) = 1 / 1000 := by
  show mkRat 1 1000 = _
  norm_num [Rat.mkRat_eq_div]

end TimeLine

namespace Scheduler

open TimeLine

variable {ι : Type} {s s' : Scheduler Rat ι} {elapsed : Rat} {event : Event}

/-! ## The wait -/

theorem timeUntilNext_of_running (running : s.paused = false) :
    s.timeUntilNext = max 0 (min (1 / 60 - s.timer) (s.coreInterval - s.core)) := by
  simp only [timeUntilNext, running, Bool.not_false, Bool.true_and, decide_eq_true_eq, zero_eq,
    frameInterval_eq]
  rw [← min_def_lt, min_comm, ← max_def_lt]

theorem SameClocks.timeUntilNext (h : s.SameClocks s') : s'.timeUntilNext = s.timeUntilNext := by
  have interval := coreInterval_of_speed h.speed
  simp only [Scheduler.timeUntilNext, h.timer, h.core, h.paused, interval]

theorem charge_of_running (running : s.paused = false) (elapsed : Rat) :
    (s.charge elapsed).timer = s.timer + clampElapsed elapsed ∧
      (s.charge elapsed).core = s.core + clampElapsed elapsed := by
  refine ⟨rfl, ?_⟩
  rw [charge, running, if_neg Bool.false_ne_true]

/-- Nothing is due as long as the wait is longer than the time that passes, by the tolerance. -/
theorem dueEvent_charge_eq_none (running : s.paused = false) (nonneg : 0 ≤ elapsed)
    (early : elapsed < s.timeUntilNext - 1 / 10 ^ 9) : (s.charge elapsed).dueEvent = none := by
  obtain ⟨timer, core⟩ := charge_of_running running elapsed
  have capped : clampElapsed elapsed ≤ elapsed := by
    rw [clampElapsed_eq, max_eq_left nonneg]
    exact min_le_left _ _
  have waits : elapsed + 1 / 10 ^ 9 < min (1 / 60 - s.timer) (s.coreInterval - s.core) := by
    have early : elapsed + 1 / 10 ^ 9 < s.timeUntilNext := lt_sub_iff_add_lt.mp early
    rw [timeUntilNext_of_running running, lt_max_iff] at early
    exact early.resolve_left (by linarith)
  obtain ⟨frame, instruction⟩ := lt_min_iff.mp waits
  rw [dueEvent_eq_none_iff, timer, core, tolerance_eq]
  exact ⟨by linarith, show _ < s.coreInterval by linarith⟩

/-- Something is due as soon as the wait is over. -/
theorem exists_dueEvent_charge (running : s.paused = false) (waited : s.timeUntilNext ≤ elapsed)
    (counts : elapsed ≤ 1 / 4) : ∃ event, (s.charge elapsed).dueEvent = some event := by
  obtain ⟨timer, core⟩ := charge_of_running running elapsed
  rw [timeUntilNext_of_running running, max_le_iff] at waited
  obtain ⟨nonneg, waited⟩ := waited
  have whole : clampElapsed elapsed = elapsed := by
    rw [clampElapsed_eq, max_eq_left nonneg, min_eq_left counts]
  refine Option.ne_none_iff_exists'.mp fun settled => ?_
  obtain ⟨frame, instruction⟩ := dueEvent_eq_none_iff.mp settled
  rw [timer, tolerance_eq, whole] at frame
  have instruction : s.core + elapsed + 1 / 10 ^ 9 < s.coreInterval := by
    rwa [core, tolerance_eq, whole] at instruction
  rcases min_le_iff.mp waited with frames | instructions <;> linarith

/-! ## What an advance does -/

variable [InputDevice ι]

/-- To let time pass does nothing but to add it to the clocks. -/
structure Idles (s : Scheduler Rat ι) (elapsed : Rat) : Prop where
  actions : s.moveActions (.advance elapsed) = [.charge elapsed]
  result : s.advance elapsed = (s.charge elapsed, .ok false)

theorem idles_of_settled (settled : (s.charge elapsed).dueEvent = none) : s.Idles elapsed := by
  obtain ⟨fuel, bound⟩ := Nat.exists_eq_succ_of_ne_zero (s.charge elapsed).eventBound_ne_zero
  constructor
  · simp only [moveActions, bound, payOutActions, settled]
  · simp only [advance, bound, payOut, settled]

/-- To let time pass begins an instruction or a frame. -/
structure Performs (s : Scheduler Rat ι) (elapsed : Rat) : Prop where
  begins : .instruction ∈ s.moveActions (.advance elapsed) ∨ .begin ∈ s.moveActions (.advance elapsed)
  /-- As soon as the time is added, the event that is due then is performed as a whole. What the
  advance does besides comes behind it. -/
  performed : ∃ event rest, (s.charge elapsed).dueEvent = some event ∧
    s.moveActions (.advance elapsed) =
      .charge elapsed :: ((s.charge elapsed).performActions event ++ rest) ∧
    Path (s.charge elapsed) ((s.charge elapsed).performActions event)
      ((s.charge elapsed).perform event).1 ∧
    Path ((s.charge elapsed).perform event).1 rest (s.advance elapsed).1

/-- The loop performs what is due, and goes on if that ends well. -/
theorem payOut_of_due (fuel : Nat) (due : s.dueEvent = some event) : ∃ rest,
    s.payOutActions (fuel + 1) = s.performActions event ++ rest ∧
      Path (s.perform event).1 rest (s.payOut (fuel + 1)).1 := by
  simp only [payOutActions, payOut, due]
  refine ⟨_, rfl, ?_⟩
  cases s.perform event with
  | mk s' result =>
    cases result with
    | error failure => exact .nil s'
    | ok quit =>
      cases quit with
      | true => exact .nil s'
      | false => exact path_payOut fuel s'

theorem performs_of_due (due : (s.charge elapsed).dueEvent = some event) : s.Performs elapsed := by
  obtain ⟨fuel, bound⟩ := Nat.exists_eq_succ_of_ne_zero (s.charge elapsed).eventBound_ne_zero
  obtain ⟨rest, done, path⟩ := payOut_of_due fuel due
  rw [← Nat.succ_eq_add_one, ← bound] at done path
  have done : s.moveActions (.advance elapsed) =
      .charge elapsed :: ((s.charge elapsed).performActions event ++ rest) := by
    rw [← done]
    rfl
  refine ⟨?_, event, rest, due, done, path_perform _ due, path⟩
  rw [done]
  cases event with
  | instruction => exact .inl (.tail _ (List.mem_append_left _ (.head _)))
  | frame => exact .inr (.tail _ (List.mem_append_left _ (.head _)))

/-! ## Between the moves of a host -/

/-- However often it is broken off, a frame is performed at most the tolerance before its time. -/
theorem ahead_moveAll (positive : 0 < s.speed) (ahead : 0 ≤ s.timer + tolerance)
    (moves : List (Move Rat)) : 0 ≤ (s.moveAll moves).timer + tolerance := by
  induction moves generalizing s with
  | nil => exact ahead
  | cons m rest ih =>
    exact ih ((s.speed_move m).symm ▸ positive) (ahead_move positive ahead m)

/-- The wait that a scheduler asks for ends when something is due. -/
structure WakesInTime (s : Scheduler Rat ι) : Prop where
  nonneg : 0 ≤ s.timeUntilNext
  short : s.timeUntilNext ≤ 1 / 60 + 1 / 10 ^ 9
  idle : ∀ elapsed, 0 ≤ elapsed → elapsed < s.timeUntilNext - 1 / 10 ^ 9 → s.Idles elapsed
  busy : ∀ elapsed, s.timeUntilNext ≤ elapsed → elapsed ≤ 1 / 4 → s.Performs elapsed
  /-- A session rests a little less than that. If it lasts no longer than asked for, nothing is due
  when it is over. -/
  rest : 1 / 1000 < s.timeUntilNext → s.rest = s.call (.sleep (s.timeUntilNext - 1 / 1000)) ∧
    ∀ elapsed, 0 ≤ elapsed → elapsed ≤ s.timeUntilNext - 1 / 1000 → s.rest.Idles elapsed

/-- Whatever a host has done, and whatever has failed, a scheduler that is not paused wakes in time. -/
theorem wakesInTime_moveAll {machine : Machine} {inputs : ι} {speed : Int} {paused : Bool}
    (built : new machine inputs speed paused = .ok s) (moves : List (Move Rat))
    (running : (s.moveAll moves).paused = false) : (s.moveAll moves).WakesInTime := by
  obtain ⟨_, positive, _, timer, _⟩ := of_new built
  have ahead : 0 ≤ (s.moveAll moves).timer + tolerance :=
    ahead_moveAll positive (by norm_num [timer]) moves
  generalize s.moveAll moves = s at running ahead
  have idle {s : Scheduler Rat ι} (running : s.paused = false) {elapsed : Rat}
      (nonneg : 0 ≤ elapsed) (early : elapsed < s.timeUntilNext - 1 / 10 ^ 9) : s.Idles elapsed :=
    idles_of_settled (dueEvent_charge_eq_none running nonneg early)
  refine { nonneg := ?_, short := ?_, idle := fun _ => idle running, busy := ?_, rest := ?_ }
  · rw [timeUntilNext_of_running running]
    exact le_max_left _ _
  · rw [tolerance_eq] at ahead
    rw [timeUntilNext_of_running running]
    exact max_le (by norm_num) ((min_le_left _ _).trans (by linarith))
  · intro elapsed waited counts
    obtain ⟨event, due⟩ := exists_dueEvent_charge running waited counts
    exact performs_of_due due
  · intro long
    have same := s.sameClocks_rest
    refine ⟨?_, fun elapsed nonneg early => idle (same.paused.trans running) nonneg ?_⟩
    · simp only [Scheduler.rest, wakeMargin_eq, if_pos long]
    · rw [same.timeUntilNext]
      linarith

/-- At fifty instructions a second, after an advance that fails at its first instruction. -/
theorem wakesInTime_moveAll_failed :
    ∃ s : Scheduler Rat Playback,
      new (Machine.new {} false false (.cycle [])) .silent 50 false = .ok s ∧
      (s.advance (1 / 50)).2.toBool = false ∧
      (s.moveAll [.advance (1 / 50)]).paused = false ∧
      (s.moveAll [.advance (1 / 50)]).timeUntilNext = 1 / 75 ∧
      (s.moveAll [.advance (1 / 50)]).Idles (1 / 76) ∧
      (s.moveAll [.advance (1 / 50)]).Performs (1 / 75) := by
  let s : Scheduler Rat Playback := report
    { machine := Machine.new {} false false (.cycle []), inputs := .silent, speed := 50
      core := 0, timer := 0, paused := false } 0 0
  have built : new (Machine.new {} false false (.cycle [])) Playback.silent 50 false = .ok s := rfl
  obtain ⟨fails, running, wait⟩ : (s.advance (1 / 50)).2.toBool = false ∧
      (s.moveAll [.advance (1 / 50)]).paused = false ∧
      (s.moveAll [.advance (1 / 50)]).timeUntilNext = 1 / 75 := by decide +kernel
  have wakes := wakesInTime_moveAll built _ running
  refine ⟨s, built, fails, running, wait, wakes.idle _ (by norm_num) ?_,
    wakes.busy _ wait.le (by norm_num)⟩
  rw [wait]
  norm_num

end Scheduler

end Chip8
