import Mathlib.Data.List.Chain
import Chip8.Host.Audio
import Chip8.Host.Playback
import Chip8.Proofs.Countdown
import Chip8.Proofs.Journal

/-! The buzzer. The host is told of changes only, so it is told to start and to stop in turn; and the
end of every frame finds it told whether the sound timer is running still. What a speaker asks of its
device follows from that: a tone is started and stopped in turn, and a bell rings at every start. -/

namespace Chip8

/-! ## Speakers -/

/-- What a speaker asks of its device when the buzzer changes. -/
def AudioKind.changed : AudioKind → Bool → List AudioCall
  | silent, _ | bell, false => []
  | bell, true => [.beep]
  | tone, true => [.play]
  | tone, false => [.stop]

namespace Speaker

/-- Switches the buzzer again and again. -/
def enableAll (s : Speaker) : List Bool → Speaker × List AudioCall
  | [] => (s, [])
  | on :: rest =>
    let (s, calls) := s.enable on
    let (s, later) := s.enableAll rest
    (s, calls ++ later)

theorem enable_of_change {s : Speaker} {on : Bool} (change : s.on ≠ on) :
    s.enable on = ({ s with on := on }, s.kind.changed on) := by
  obtain ⟨kind, was⟩ := s
  cases kind <;> cases was <;> cases on <;> first | rfl | exact absurd rfl change

/-- A speaker that hears of changes only passes on every one of them. -/
theorem enableAll_of_isChain {s : Speaker} {told : List Bool}
    (turns : (s.on :: told).IsChain (· ≠ ·)) :
    s.enableAll told = ({ s with on := told.getLast?.getD s.on }, told.flatMap s.kind.changed) := by
  induction told generalizing s with
  | nil => rfl
  | cons on rest ih =>
    obtain ⟨change, others⟩ := List.isChain_cons_cons.mp turns
    have first := enable_of_change change
    have later := ih (s := { s with on := on }) others
    simp only [enableAll, first, later, List.getLast?_cons, Option.getD_some, List.flatMap_cons]

theorem of_new {kind : AudioKind} {frequency : Float} {s : Speaker} {prepared : List AudioCall}
    (built : new kind frequency = .ok (s, prepared)) : s = { kind } := by
  cases kind with
  | tone =>
    simp only [new, bind, Except.bind] at built
    split at built
    · cases built
    · exact (Prod.mk.inj (Except.ok.inj built)).1.symm
  | silent | bell => exact (Prod.mk.inj (Except.ok.inj built)).1.symm

theorem enableAll_of_new {kind : AudioKind} {frequency : Float} {s : Speaker}
    {prepared : List AudioCall} (built : new kind frequency = .ok (s, prepared)) {told : List Bool}
    (turns : (false :: told).IsChain (· ≠ ·)) :
    s.enableAll told = (⟨kind, told.getLast?.getD false⟩, told.flatMap kind.changed) := by
  obtain rfl := of_new built
  exact enableAll_of_isChain turns

end Speaker

theorem flatMap_changed_tone (told : List Bool) : told.flatMap (AudioKind.changed .tone) =
    told.map fun on => if on then .play else .stop := by
  rw [List.map_eq_flatMap]
  refine congrArg told.flatMap (funext fun on => ?_)
  cases on <;> rfl

theorem flatMap_changed_bell (told : List Bool) : told.flatMap (AudioKind.changed .bell) =
    told.filterMap fun on => if on then some .beep else none := by
  rw [List.filterMap_eq_flatMap_toList]
  refine congrArg told.flatMap (funext fun on => ?_)
  cases on <;> rfl

/-- What a call says about the buzzer. -/
def HostCall.buzzer? {τ : Type} : HostCall τ → Option Bool
  | buzzer on => some on
  | _ => none

/-- Whether an action counts a frame. -/
def Action.counts {τ : Type} : Action τ → Bool
  | count => true
  | _ => false

namespace Scheduler

variable {τ ι : Type} {s s' : Scheduler τ ι}

/-- What the host has been told about the buzzer so far. -/
def told (s : Scheduler τ ι) : List Bool := s.log.toList.filterMap HostCall.buzzer?

/-- What it was told last; nothing means that the buzzer is off. -/
def lastTold (s : Scheduler τ ι) : Bool := s.told.getLast?.getD false

/-! ## Actions that leave the buzzer alone -/

/-- The host has heard nothing new about the buzzer. -/
structure SameBuzzer (s s' : Scheduler τ ι) : Prop where
  told : s'.told = s.told := by rfl
  buzzer : s'.buzzer = s.buzzer := by rfl

theorem told_call (s : Scheduler τ ι) (c : HostCall τ) :
    (s.call c).told = s.told ++ c.buzzer?.toList := by
  simp only [told, call, Array.toList_push, List.filterMap_append]
  cases c <;> rfl

theorem sameBuzzer_report (s : Scheduler τ ι) (pictures instructions : Int) :
    s.SameBuzzer (s.report pictures instructions) where
  told := (told_call _ _).trans (List.append_nil _)

theorem sameBuzzer_operate (s : Scheduler τ ι) (operation : Operation) :
    s.SameBuzzer (s.operate operation) := by
  unfold operate
  dsimp only
  split
  · exact { told := (told_call _ _).trans (List.append_nil _) }
  · exact {}

theorem sameBuzzer_render (s : Scheduler τ ι) : s.SameBuzzer s.render := by
  refine { told := ?_, buzzer := ?_ }
  · have silent : s.renderCalls.filterMap HostCall.buzzer? = [] := by
      unfold renderCalls announcement
      split
      · split <;> rfl
      · rfl
    rw [told, log_render, List.filterMap_append, silent, List.append_nil]
    rfl
  · unfold render
    dsimp only
    split
    · split <;> rfl
    · rfl

theorem sameBuzzer_countFrame (s : Scheduler τ ι) : s.SameBuzzer s.countFrame := by
  unfold countFrame
  dsimp only
  split
  · exact { told := (told_call _ _).trans (List.append_nil _) }
  · exact {}

theorem sameBuzzer_rest [Sub τ] [LT τ] [DecidableLT τ] [TimeLine τ] (s : Scheduler τ ι) :
    s.SameBuzzer s.rest := by
  unfold rest
  dsimp only
  split
  · exact { told := (told_call _ _).trans (List.append_nil _) }
  · exact {}

/-! ## What the host is told -/

/-- The host was told of changes only, and the scheduler knows what it was told last. -/
structure InTurns (s : Scheduler τ ι) : Prop where
  turns : (false :: s.told).IsChain (· ≠ ·)
  last : s.lastTold = s.buzzer

theorem InTurns.of_silent (silent : s.told = []) (off : s.buzzer = false) : s.InTurns where
  turns := silent ▸ .singleton false
  last := by rw [lastTold, silent, off, List.getLast?_nil, Option.getD_none]

theorem InTurns.of_sameBuzzer (h : s.InTurns) (same : s.SameBuzzer s') : s'.InTurns where
  turns := same.told ▸ h.turns
  last := by
    rw [lastTold, same.told, same.buzzer]
    exact h.last

theorem inTurns_of_new [TimeLine τ] {machine : Machine} {inputs : ι} {speed : Int} {paused : Bool}
    (built : new machine inputs speed paused = .ok s) : s.InTurns := by
  obtain ⟨_, start⟩ := eq_of_new built
  rw [start]
  refine InTurns.of_sameBuzzer ?_ (sameBuzzer_report _ _ _)
  exact .of_silent rfl rfl

theorem buzzer_updateBuzzer (s : Scheduler τ ι) :
    s.updateBuzzer.buzzer = s.machine.timers.soundActive := by
  unfold updateBuzzer
  dsimp only
  split
  · next same => exact same.symm
  · rfl

theorem InTurns.updateBuzzer (h : s.InTurns) : s.updateBuzzer.InTurns := by
  unfold Scheduler.updateBuzzer
  dsimp only
  split
  · exact h
  · next change =>
    have told : (s.call (.buzzer s.machine.timers.soundActive)).told =
        s.told ++ [s.machine.timers.soundActive] := told_call _ _
    refine { turns := ?_, last := ?_ }
    · -- The value that comes last is the one that the scheduler compares with.
      have latest : (false :: s.told).getLast? = some s.buzzer := by
        rw [List.getLast?_cons, ← h.last]
        rfl
      show (false :: (s.call _).told).IsChain _
      rw [told, ← List.cons_append]
      refine h.turns.append (.singleton _) fun x before y next => ?_
      obtain rfl := Option.some.inj (latest.symm.trans before)
      obtain rfl := Option.some.inj next
      exact Ne.symm change
    · show (s.call _).told.getLast?.getD false = _
      rw [told, List.getLast?_concat]
      rfl

/-! ## Frames -/

/-- Actions that count a frame only behind its tick, its buzzer and its picture. -/
inductive Framed : List (Action τ) → Prop
  | nil : Framed []
  | other {a : Action τ} {rest : List (Action τ)} (uncounted : a.counts = false)
    (framed : Framed rest) : Framed (a :: rest)
  | frame {rest : List (Action τ)} (framed : Framed rest) : Framed (finishActions ++ rest)

theorem Framed.append {actions rest : List (Action τ)} (framed : Framed actions)
    (framed' : Framed rest) : Framed (actions ++ rest) := by
  induction framed with
  | nil => exact framed'
  | other uncounted _ ih => exact .other uncounted ih
  | frame _ ih =>
    rw [List.append_assoc]
    exact .frame ih

theorem framed_finish : Framed (finishActions (τ := τ)) := by
  have whole := Framed.frame (τ := τ) .nil
  rwa [List.append_nil] at whole

theorem framed_singleStep (s : Scheduler τ ι) : Framed (τ := τ) s.singleStepActions := by
  unfold singleStepActions
  refine .other rfl ?_
  split
  · exact .other rfl (.other rfl .nil)
  · exact .nil

theorem framed_obey [TimeLine τ] (s : Scheduler τ ι) (c : HostCommand) :
    Framed (τ := τ) (s.obeyActions c) := by
  cases c with
  | togglePause =>
    simp only [obeyActions]
    split <;> exact .other rfl .nil
  | step =>
    simp only [obeyActions]
    split
    · exact s.framed_singleStep
    · exact .nil

theorem framed_obeyAll [TimeLine τ] (s : Scheduler τ ι) (commands : List HostCommand) :
    Framed (τ := τ) (s.obeyAllActions commands) := by
  induction commands generalizing s with
  | nil => exact .nil
  | cons c rest ih =>
    rw [obeyAllActions]
    refine (s.framed_obey c).append ?_
    split
    · exact ih _
    · exact .nil

variable [Add τ] [Sub τ] [LT τ] [DecidableLT τ] [TimeLine τ] [InputDevice ι]

theorem sameBuzzer_take (s : Scheduler τ ι) {a : Action τ} (other : a ≠ .buzzer) :
    s.SameBuzzer (s.take a) := by
  cases a with
  | instruction => exact { (s.spend .instruction).sameBuzzer_operate .step with }
  | operate operation => exact s.sameBuzzer_operate operation
  | render => exact s.sameBuzzer_render
  | count => exact s.sameBuzzer_countFrame
  | rest => exact s.sameBuzzer_rest
  | buzzer => exact absurd rfl other
  | charge | begin | poll | collect | pause | resume | tick | finish => exact {}

/-- Every action tells the host of changes only. -/
theorem InTurns.take (h : s.InTurns) (a : Action τ) : (s.take a).InTurns := by
  by_cases buzzer : a = .buzzer
  · subst buzzer
    exact h.updateBuzzer
  · exact h.of_sameBuzzer (s.sameBuzzer_take buzzer)

omit [Add τ] [Sub τ] [LT τ] [DecidableLT τ] in
theorem framed_frame (s : Scheduler τ ι) : Framed s.frameActions := by
  unfold frameActions
  refine .other rfl ?_
  split
  · exact .nil
  · exact .nil
  · refine .other rfl (Framed.append (framed_obeyAll _ _) ?_)
    split
    · exact framed_finish
    · exact .nil

/-- Behind the actions that finish a frame, and only there, a frame is counted. -/
theorem Framed.of_count {actions : List (Action τ)} (framed : Framed actions)
    {s c : Scheduler τ ι} {before after : List (Scheduler τ ι × Action τ)}
    (split : s.along actions = before ++ (c, .count) :: after) :
    ∃ earlier, ∃ t : Scheduler τ ι, before = earlier ++ t.along [.tick, .buzzer, .render] ∧
      c.take .count = t.finishFrame := by
  induction framed generalizing s before with
  | nil => simp [along] at split
  | other uncounted _ ih =>
    cases before with
    | nil =>
      obtain ⟨same, _⟩ := List.cons.inj split
      rw [(Prod.mk.inj same).2] at uncounted
      cases uncounted
    | cons first before =>
      obtain ⟨rfl, rest⟩ := List.cons.inj split
      obtain ⟨earlier, t, rfl, done⟩ := ih rest
      exact ⟨_ :: earlier, t, rfl, done⟩
  | frame _ ih =>
    simp only [finishActions, List.cons_append, List.nil_append, along] at split
    -- Of the four actions that finish a frame only the last one counts.
    rcases before with _ | ⟨_, _ | ⟨_, _ | ⟨_, _ | ⟨_, before⟩⟩⟩⟩
    · simp at split
    · simp at split
    · simp at split
    · simp only [List.cons_append, List.nil_append, List.cons.injEq, Prod.mk.injEq] at split
      obtain ⟨rfl, rfl, rfl, ⟨rfl, _⟩, _⟩ := split
      exact ⟨[], s, rfl, rfl⟩
    · simp only [List.cons_append, List.cons.injEq] at split
      obtain ⟨rfl, rfl, rfl, rfl, rest⟩ := split
      obtain ⟨earlier, t, rfl, done⟩ := ih rest
      exact ⟨_ :: _ :: _ :: _ :: earlier, t, rfl, done⟩

theorem buzzer_finishFrame (s : Scheduler τ ι) :
    s.finishFrame.buzzer = s.machine.tick.timers.soundActive := by
  let switched := (s.take .tick).updateBuzzer
  calc s.finishFrame.buzzer
      = switched.render.buzzer := (sameBuzzer_countFrame _).buzzer
    _ = switched.buzzer := (sameBuzzer_render _).buzzer
    _ = s.machine.tick.timers.soundActive := buzzer_updateBuzzer _

theorem framed_perform (s : Scheduler τ ι) (event : Event) : Framed (s.performActions event) := by
  cases event with
  | frame => exact .other rfl (framed_frame _)
  | instruction => exact .other rfl .nil

variable [LE τ] [DecidableLE τ]

theorem framed_payOut (fuel : Nat) (s : Scheduler τ ι) : Framed (s.payOutActions fuel) := by
  induction fuel generalizing s with
  | zero => exact .nil
  | succ fuel ih =>
    rw [payOutActions]
    split
    · exact .nil
    · refine (s.framed_perform _).append ?_
      split
      · exact ih _
      · exact .nil

theorem framed_move (s : Scheduler τ ι) (m : Move τ) : Framed (s.moveActions m) := by
  cases m with
  | advance elapsed => exact .other rfl (framed_payOut _ _)
  | singleStep => exact s.framed_singleStep
  | obey c => exact s.framed_obey c
  | pause | resume | operate | rest => exact .other rfl .nil

theorem framed_moveAll (s : Scheduler τ ι) (moves : List (Move τ)) :
    Framed (s.moveAllActions moves) := by
  induction moves generalizing s with
  | nil => exact .nil
  | cons m rest ih => exact (s.framed_move m).append (ih _)

/-! ## Whole runs -/

/-- What the host is told about the buzzer in a run, and what its speakers make of that. -/
structure Buzzes (s : Scheduler τ ι) (moves : List (Move τ)) : Prop where
  /-- It is told to start first, and then to stop and to start in turn. -/
  turns : (false :: (s.moveAll moves).told).IsChain (· ≠ ·)
  /-- A frame that is counted ends with the host told whether the sound timer ran on behind its tick. -/
  frames : ∀ before c after, s.trail moves = before ++ (c, .count) :: after →
    ∃ earlier, ∃ t : Scheduler τ ι, before = earlier ++ t.along [.tick, .buzzer, .render] ∧
      c.take .count = t.finishFrame ∧
      (t.finishFrame.lastTold = true ↔ 0 < (t.machine.tick.timers.value .sound).toNat)
  /-- Every call plays a tone or stops it. -/
  tone : ∀ frequency speaker prepared, Speaker.new .tone frequency = .ok (speaker, prepared) →
    speaker.enableAll (s.moveAll moves).told = (⟨.tone, (s.moveAll moves).lastTold⟩,
      (s.moveAll moves).told.map fun on => if on then .play else .stop)
  /-- Every call that starts the buzzer rings the bell, and no other does. -/
  bell : ∀ frequency speaker prepared, Speaker.new .bell frequency = .ok (speaker, prepared) →
    speaker.enableAll (s.moveAll moves).told = (⟨.bell, (s.moveAll moves).lastTold⟩,
      (s.moveAll moves).told.filterMap fun on => if on then some .beep else none)

/-- From the start of a scheduler, and whatever is done to it and to its machine and fails on the way,
the buzzer follows the sound timer. -/
theorem buzzes_moveAll {machine : Machine} {inputs : ι} {speed : Int} {paused : Bool}
    (built : new machine inputs speed paused = .ok s) (moves : List (Move τ)) : s.Buzzes moves := by
  have first := inTurns_of_new built
  obtain ⟨met, after⟩ : (∀ e ∈ s.trail moves, e.1.InTurns) ∧ (s.moveAll moves).InTurns := by
    refine trail_induction (I := fun past s => (∀ e ∈ past, e.1.InTurns) ∧ s.InTurns)
      (fun past s a h _ => ⟨?_, h.2.take a⟩) ⟨List.forall_mem_nil _, first⟩ moves
    rw [List.forall_mem_append, List.forall_mem_singleton]
    exact h
  refine { turns := after.turns, frames := ?_, tone := ?_, bell := ?_ }
  · intro before c rest split
    obtain ⟨earlier, t, behind, done⟩ := (s.framed_moveAll moves).of_count split
    refine ⟨earlier, t, behind, done, ?_⟩
    have turns : (c.take .count).InTurns := (met (c, .count) (by simp [split])).take .count
    rw [done] at turns
    rw [turns.last, buzzer_finishFrame]
    exact Timers.soundActive_iff _
  · intro frequency speaker prepared ready
    rw [Speaker.enableAll_of_new ready after.turns, flatMap_changed_tone]
    rfl
  · intro frequency speaker prepared ready
    rw [Speaker.enableAll_of_new ready after.turns, flatMap_changed_bell]
    rfl

/-- A sound that the second frame ends, and a bell that rings once for it. -/
theorem buzzes_moveAll_twice :
    let moves : List (Move Rat) := [.advance (1 / 50), .advance (1 / 50)]
    let machine := { Machine.new {} false false (.cycle []) with
      memory := (Memory.zeros 0x1000).putAll 0x200 [0x60, 0x02, 0xF0, 0x18, 0x12, 0x04] }
    ∃ s : Scheduler Rat Playback, new machine Playback.silent 200 false = .ok s ∧
      (s.moveAll moves).told = [true, false] ∧
      (Speaker.enableAll { kind := .bell } (s.moveAll moves).told).2 = [.beep] := by
  intro moves machine
  obtain ⟨s, built, told⟩ : ∃ s : Scheduler Rat Playback,
      new machine Playback.silent 200 false = .ok s ∧ (s.moveAll moves).told = [true, false] :=
    ⟨_, new_eq_ok (τ := Rat) _ _ false (by decide) rfl, by decide +kernel⟩
  have rung := (buzzes_moveAll built moves).bell SquareWave.defaultFrequency { kind := .bell } [] rfl
  rw [told] at rung
  refine ⟨s, built, told, ?_⟩
  rw [told]
  exact congrArg Prod.snd rung

end Scheduler

end Chip8
