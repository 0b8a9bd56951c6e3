import Chip8.Proofs.Pausing
import Chip8.Proofs.Slicing

/-! What the clocks owe between the moves of a host, with exact time. An advance caps the time that it
adds to the clocks, not what they hold. One that ends well pays all of it out; one that is broken off,
by a failure or by a wish to quit, leaves the rest on the clocks, and the next adds to it. So the
clocks hold less than an interval, and one capped stall more for each advance that was broken off since
the last one that ended well. There is no other cap: a user who asks to quit at every poll makes them
hold as much as one likes. -/

namespace Chip8

namespace Scheduler

open TimeLine

variable {ι : Type} [InputDevice ι] {s s' : Scheduler Rat ι} {actions : List (Action Rat)}
  {event : Event} {result : Except Failure Bool} {stalls : Nat}

/-! ## Paying out -/

omit [InputDevice ι] in
theorem coreInterval_nonneg (s : Scheduler Rat ι) : 0 ≤ s.coreInterval := by
  rw [coreInterval_eq]
  positivity

omit [InputDevice ι] in
theorem timer_spend_le (s : Scheduler Rat ι) (event : Event) : (s.spend event).timer ≤ s.timer := by
  cases event with
  | frame =>
    show s.timer - frameInterval ≤ s.timer
    norm_num
  | instruction => exact le_rfl

omit [InputDevice ι] in
theorem core_spend_le (s : Scheduler Rat ι) (event : Event) : (s.spend event).core ≤ s.core := by
  cases event with
  | frame => exact le_rfl
  | instruction => exact sub_le_self _ s.coreInterval_nonneg

/-- What a clock holds grows in no other way than by the time that passes. -/
structure Pays (s s' : Scheduler Rat ι) : Prop where
  speed : s'.speed = s.speed
  timer : s'.timer ≤ s.timer
  core : s'.core ≤ max s.core 0

omit [InputDevice ι] in
theorem Untimed.pays (h : s.Untimed s') : s.Pays s' where
  speed := h.speed
  timer := h.timer.le
  core := by
    rcases h.core with kept | zero
    · exact kept.le.trans (le_max_left _ _)
    · exact zero.le.trans (le_max_right _ _)

omit [InputDevice ι] in
theorem Pays.trans {s'' : Scheduler Rat ι} (h : s.Pays s') (h' : s'.Pays s'') : s.Pays s'' where
  speed := h'.speed.trans h.speed
  timer := h'.timer.trans h.timer
  core := h'.core.trans (max_le h.core (le_max_right _ _))

omit [InputDevice ι] in
theorem pays_spend (s : Scheduler Rat ι) (event : Event) : s.Pays (s.spend event) where
  speed := by cases event <;> rfl
  timer := s.timer_spend_le event
  core := (s.core_spend_le event).trans (le_max_left _ _)

theorem pays_perform (s : Scheduler Rat ι) (event : Event) : s.Pays (s.perform event).1 :=
  (s.pays_spend event).trans (s.untimed_perform event).pays

theorem PaysOut.pays (h : PaysOut s actions s' result) : s.Pays s' := by
  induction h with
  | settled => exact ⟨rfl, le_rfl, le_max_left _ _⟩
  | @stopped s _ event _ _ performed _ =>
    have pays := s.pays_perform event
    rwa [performed] at pays
  | @next s _ _ event _ _ _ performed _ ih =>
    have pays := s.pays_perform event
    rw [performed] at pays
    exact pays.trans ih

/-! ## Advances that were broken off -/

/-- The number of advances in a row that were broken off, behind one more move. -/
def stalled (s : Scheduler Rat ι) (stalls : Nat) : Move Rat → Nat
  | .advance elapsed =>
    match (s.advance elapsed).2 with
    | .ok false => 0
    | _ => stalls + 1
  | _ => stalls

def stallsFrom (s : Scheduler Rat ι) (stalls : Nat) : List (Move Rat) → Nat
  | [] => stalls
  | m :: rest => (s.move m).stallsFrom (s.stalled stalls m) rest

/-- The number of advances that were broken off, by a failure or by a wish to quit, since the last one
that ended well. -/
def stallsIn (s : Scheduler Rat ι) (moves : List (Move Rat)) : Nat := s.stallsFrom 0 moves

theorem stalled_of_still (s : Scheduler Rat ι) {m : Move Rat} (still : m.advances = false)
    (stalls : Nat) : s.stalled stalls m = stalls := by
  cases m with
  | advance => cases still
  | _ => rfl

theorem stalled_of_well {elapsed : Rat} (well : (s.advance elapsed).2 = .ok false) (stalls : Nat) :
    s.stalled stalls (.advance elapsed) = 0 := by
  simp only [stalled, well]

theorem stalled_of_stopped {elapsed : Rat} (stops : (s.advance elapsed).2 ≠ .ok false)
    (stalls : Nat) : s.stalled stalls (.advance elapsed) = stalls + 1 := by
  simp only [stalled]

/-- The clocks hold less than an interval and a number of capped stalls. -/
structure Owes (s : Scheduler Rat ι) (stalls : Nat) : Prop where
  timer : s.timer < 1 / 60 + stalls * (1 / 4)
  core : s.core < s.coreInterval + stalls * (1 / 4)

omit [InputDevice ι] in
theorem Pays.owes (pays : s.Pays s') (positive : 0 < s.speed) (owes : s.Owes stalls) :
    s'.Owes stalls where
  timer := pays.timer.trans_lt owes.timer
  core := by
    have more : (0 : Rat) ≤ stalls * (1 / 4) := by positivity
    have room : 0 < s.coreInterval + stalls * (1 / 4) :=
      add_pos_of_pos_of_nonneg (coreInterval_pos positive) more
    rw [coreInterval_of_speed pays.speed]
    exact pays.core.trans_lt (max_lt owes.core room)

omit [InputDevice ι] in
/-- Time that passes adds one capped stall at most. -/
theorem Owes.charge (owes : s.Owes stalls) (elapsed : Rat) : (s.charge elapsed).Owes (stalls + 1) := by
  obtain ⟨timer, core⟩ := owes
  have capped : clampElapsed elapsed ≤ 1 / 4 := by
    rw [clampElapsed_eq]
    exact min_le_right _ _
  constructor
  · show s.timer + clampElapsed elapsed < _
    push_cast
    linarith
  · show (if s.paused then s.core else s.core + clampElapsed elapsed) < s.coreInterval + _
    push_cast
    split <;> linarith

omit [InputDevice ι] in
theorem owes_of_settled (settled : s.dueEvent = none) : s.Owes 0 := by
  obtain ⟨timer, core⟩ := dueEvent_eq_none_iff.mp settled
  rw [tolerance_eq] at timer core
  constructor <;> push_cast <;> linarith

theorem Owes.move (owes : s.Owes stalls) (positive : 0 < s.speed) (m : Move Rat) :
    (s.move m).Owes (s.stalled stalls m) := by
  obtain still | ⟨elapsed, _, rfl, -, paid⟩ := move_cases positive m
  · rw [s.stalled_of_still still]
    exact (s.untimed_move still).pays.owes positive owes
  · by_cases well : (s.advance elapsed).2 = .ok false
    · rw [stalled_of_well well]
      exact owes_of_settled (paid.settles well)
    · rw [stalled_of_stopped well]
      exact paid.pays.owes positive (owes.charge elapsed)

theorem Owes.moveAll (owes : s.Owes stalls) (positive : 0 < s.speed) (moves : List (Move Rat)) :
    (s.moveAll moves).Owes (s.stallsFrom stalls moves) := by
  induction moves generalizing s stalls with
  | nil => exact owes
  | cons m rest ih => exact ih (owes.move positive m) ((s.speed_move m).symm ▸ positive)

/-- Whatever a host does, and whatever fails, the clocks hold less than an interval and one capped
stall for each advance that was broken off since the last one that ended well. So one that was broken
off leaves them within the cap. -/
theorem owes_moveAll {machine : Machine} {inputs : ι} {speed : Int} {paused : Bool}
    (built : new machine inputs speed paused = .ok s) (moves : List (Move Rat)) :
    (s.moveAll moves).Owes (s.stallsIn moves) ∧
      (s.stallsIn moves ≤ 1 → (s.moveAll moves).timer ≤ 1 / 4 + 1 / 60 ∧
        (s.moveAll moves).core ≤ 1 / 4 + (s.moveAll moves).coreInterval) := by
  obtain ⟨_, positive, core, timer, _⟩ := of_new built
  have start : s.Owes 0 := by
    have interval := coreInterval_pos positive
    exact ⟨by norm_num [timer], by rw [core]; push_cast; linarith⟩
  have owes := start.moveAll positive moves
  refine ⟨owes, fun once => ?_⟩
  obtain ⟨timer, core⟩ := owes
  have once : ((s.stallsIn moves : Nat) : Rat) ≤ 1 := by exact_mod_cast once
  rw [stallsIn] at once
  constructor <;> linarith

/-- A wish to quit at the first poll breaks off the first advance, and the next one pays out what it
has left. -/
theorem owes_moveAll_quitting :
    ∃ s : Scheduler Rat Playback,
      new (Machine.new {} false false (.cycle [])) (.quitting (some 1)) 1 false = .ok s ∧
      s.stallsIn [.advance (1 / 4)] = 1 ∧ s.stallsIn [.advance (1 / 4), .advance 0] = 0 ∧
      (s.moveAll [.advance (1 / 4)]).timer ≤ 1 / 4 + 1 / 60 ∧
      (s.moveAll [.advance (1 / 4), .advance 0]).timer < 1 / 60 := by
  let s : Scheduler Rat Playback := report
    { machine := Machine.new {} false false (.cycle []), inputs := .quitting (some 1), speed := 1
      core := 0, timer := 0, paused := false } 0 0
  have built : new (Machine.new {} false false (.cycle [])) (Playback.quitting (some 1)) 1 false =
      .ok s := rfl
  have once : s.stallsIn [.advance (1 / 4)] = 1 := by decide +kernel
  have none : s.stallsIn [.advance (1 / 4), .advance 0] = 0 := by decide +kernel
  have owes := (owes_moveAll built [.advance (1 / 4), .advance 0]).1
  rw [none] at owes
  refine ⟨s, built, once, none, ((owes_moveAll built _).2 once.le).1, ?_⟩
  simpa using owes.timer

/-! ## No other cap -/

/-- Devices that never let a poll end well, now or later. -/
def Restless (P : ι → Prop) : Prop :=
  ∀ device (keypad : Keypad), P device →
    (InputDevice.poll device keypad).result ≠ .ok false ∧ P (InputDevice.poll device keypad).device

variable {P : ι → Prop}

/-- A frame of a restless device is broken off at its poll. -/
theorem Restless.frame (restless : Restless P) (h : P s.inputs) :
    s.frame.2 ≠ .ok false ∧ P s.frame.1.inputs := by
  obtain ⟨stops, goesOn⟩ := restless s.inputs s.machine.keypad h
  cases polled : s.pollResult with
  | error failure =>
    rw [frame_of_error polled]
    exact ⟨nofun, goesOn⟩
  | ok quit =>
    cases quit with
    | false => exact absurd polled stops
    | true =>
      rw [frame_of_quit polled]
      exact ⟨nofun, goesOn⟩

theorem Restless.perform (restless : Restless P) (h : P s.inputs) (event : Event) :
    (event = .frame → (s.perform event).2 ≠ .ok false) ∧ P (s.perform event).1.inputs := by
  cases event with
  | frame =>
    obtain ⟨stops, goesOn⟩ := restless.frame (s := s.spend .frame) h
    exact ⟨fun _ => stops, goesOn⟩
  | instruction =>
    refine ⟨nofun, ?_⟩
    have same : (s.perform .instruction).1.inputs = s.inputs := by
      rw [perform_instruction]
      exact inputs_operate _ _
    rwa [same]

/-- An advance with a restless device begins one frame at most. -/
theorem Restless.paysOut (restless : Restless P) (h : P s.inputs)
    (paid : PaysOut s actions s' result) : actions.count .begin ≤ 1 ∧ P s'.inputs := by
  have begun (s : Scheduler Rat ι) (event : Event) :
      (s.performActions event).count .begin = [event].count .frame :=
    s.count_performActions event .frame
  induction paid with
  | settled => exact ⟨Nat.zero_le 1, h⟩
  | @stopped s _ event _ _ performed _ =>
    have goesOn := (restless.perform h event).2
    rw [performed] at goesOn
    refine ⟨?_, goesOn⟩
    rw [begun]
    exact List.count_le_length
  | @next s _ _ event _ _ _ performed _ ih =>
    obtain ⟨stops, goesOn⟩ := restless.perform h event
    rw [performed] at stops goesOn
    cases event with
    | frame => exact absurd rfl (stops rfl)
    | instruction =>
      obtain ⟨atMost, later⟩ := ih goesOn
      rw [List.count_append, begun]
      exact ⟨(Nat.zero_add _).trans_le atMost, later⟩

/-- With a restless device every stall is left on the clock, but for the one frame that it begins. -/
theorem Restless.le_timer (restless : Restless P) (h : P s.inputs) (positive : 0 < s.speed) (n : Nat) :
    s.timer + n * (7 / 30) ≤ (s.moveAll (List.replicate n (.advance (1 / 4)))).timer := by
  induction n generalizing s with
  | zero =>
    show s.timer + _ ≤ s.timer
    norm_num
  | succ n ih =>
    obtain ⟨actions, _, paid⟩ := paysOut_advance positive (1 / 4)
    obtain ⟨once, goesOn⟩ := restless.paysOut (s := s.charge (1 / 4)) h paid
    have once : (actions.count .begin : Rat) ≤ 1 := by exact_mod_cast once
    have charged : (s.charge (1 / 4)).timer = s.timer + 1 / 4 := by
      show s.timer + clampElapsed (1 / 4) = _
      rw [clampElapsed_eq]
      norm_num
    have first : s.timer + 7 / 30 ≤ (s.advance (1 / 4)).1.timer := by
      rw [paid.path.takeAll_eq, timer_takeAll, paid.elapsedIn_eq, charged]
      linarith
    have later := ih goesOn (paid.pays.speed.symm ▸ positive)
    rw [List.replicate_succ]
    show _ ≤ ((s.advance (1 / 4)).1.moveAll _).timer
    push_cast
    linarith

/-- A user who asks to quit at every poll. -/
theorem restless_playback : Restless fun device : Playback => device.script = fun _ => [.quit] := by
  rintro ⟨script, polls, commands⟩ keypad rfl
  exact ⟨nofun, rfl⟩

/-- A user who asks to quit twice, to a host that goes on, leaves more than the cap on the clock. -/
theorem stalls_beyond_cap :
    ∃ (m : Machine) (s : Scheduler Rat Playback),
      (Machine.new {} false false (.cycle [])).loadProgram [0x12, 0x00] 0x200 = .ok m ∧
      new m { script := fun _ => [.quit] } 1 false = .ok s ∧
      1 / 4 + 1 / 60 < (s.moveAll [.advance (1 / 4), .advance (1 / 4)]).timer := by
  obtain ⟨m, loaded⟩ : ∃ m, (Machine.new {} false false (.cycle [])).loadProgram [0x12, 0x00] 0x200 =
      .ok m := ⟨_, rfl⟩
  let s : Scheduler Rat Playback := report
    { machine := m, inputs := { script := fun _ => [.quit] }, speed := 1
      core := 0, timer := 0, paused := false } 0 0
  have built : new m { script := fun _ => [.quit] : Playback } 1 false = .ok s := rfl
  obtain ⟨_, positive, _, timer, _⟩ := of_new built
  have twice := restless_playback.le_timer (s := s) rfl positive 2
  refine ⟨m, s, loaded, built, lt_of_lt_of_le ?_ twice⟩
  norm_num [timer]

end Scheduler

end Chip8
