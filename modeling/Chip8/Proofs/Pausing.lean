import Chip8.Host.Playback
import Chip8.Proofs.Settling

/-! Pausing. A paused instruction clock is not charged and stands at zero, and that is all that keeps
it from executing instructions: nothing asks again whether it is paused. So a pause is a rest unless
an instruction is due on a clock at zero, and that is a matter of speed. Below a thousand million
instructions a second the time between two of them is longer than the tolerance of the clocks; from
there on it is not, and a paused scheduler executes instructions whenever time passes. -/

namespace Chip8.Scheduler

open TimeLine

variable {τ ι : Type} {s s' : Scheduler τ ι}

/-! ## A clock at rest -/

/-- A paused clock stands at zero, and every instruction so far was executed by a clock that ran. -/
structure Rests [TimeLine τ] (speed : Nat) (past : List (Scheduler τ ι × Action τ))
    (s : Scheduler τ ι) : Prop where
  speed : s.speed = speed
  core : s.paused = true → s.core = zero
  running : ∀ met, (met, .instruction) ∈ past → met.paused = false

variable {speed : Nat} {past : List (Scheduler τ ι × Action τ)} {a : Action τ}

/-- What is done besides instructions adds nothing to those executed. -/
theorem running_append (running : ∀ met, (met, .instruction) ∈ past → met.paused = false)
    (other : a ≠ .instruction) (met : Scheduler τ ι)
    (member : (met, .instruction) ∈ past ++ [(s, a)]) : met.paused = false := by
  rcases List.mem_append.mp member with old | new
  · exact running met old
  · exact absurd (Prod.mk.inj (List.mem_singleton.mp new)).2.symm other

theorem Rests.of_sameClocks [TimeLine τ] (h : Rests speed past s) (same : s.SameClocks s')
    (other : a ≠ .instruction) : Rests speed (past ++ [(s, a)]) s' where
  speed := same.speed.trans h.speed
  core paused := same.core.trans (h.core (same.paused ▸ paused))
  running := running_append h.running other

variable [Add τ] [Sub τ] [LE τ] [LT τ] [DecidableLE τ] [DecidableLT τ] [TimeLine τ] [InputDevice ι]

/-- Unless an instruction is due on a clock at zero, none is admitted during a pause, and every
action keeps a paused clock at zero. -/
theorem Rests.take (calm : ¬ ratio 1 speed ≤ (zero : τ) + tolerance) (h : Rests speed past s)
    (admitted : s.Admits a) : Rests speed (past ++ [(s, a)]) (s.take a) := by
  cases a with
  | charge elapsed =>
    refine ⟨h.speed, fun paused => ?_, running_append h.running nofun⟩
    have paused : s.paused = true := paused
    show (if s.paused then s.core else s.core + clampElapsed elapsed) = zero
    rw [if_pos paused, h.core paused]
  | instruction =>
    have running : s.paused = false := by
      refine Bool.eq_false_iff.mpr fun paused => calm ?_
      have due : s.coreInterval ≤ s.core + tolerance := of_decide_eq_true admitted
      rwa [h.core paused, coreInterval, h.speed] at due
    have same : (s.spend .instruction).SameClocks (s.take .instruction) := sameClocks_operate _ _
    refine ⟨same.speed.trans h.speed, fun paused => ?_, fun met member => ?_⟩
    · rw [same.paused, show (s.spend .instruction).paused = s.paused from rfl, running] at paused
      cases paused
    · rcases List.mem_append.mp member with old | new
      · exact h.running met old
      · rwa [(Prod.mk.inj (List.mem_singleton.mp new)).1]
  | pause => exact ⟨h.speed, fun _ => rfl, running_append h.running nofun⟩
  | resume => exact ⟨h.speed, nofun, running_append h.running nofun⟩
  | begin => exact ⟨h.speed, h.core, running_append h.running nofun⟩
  | poll | collect | tick | finish => exact h.of_sameClocks ⟨rfl, rfl, rfl, rfl⟩ nofun
  | operate operation => exact h.of_sameClocks (s.sameClocks_operate operation) nofun
  | buzzer => exact h.of_sameClocks s.sameClocks_updateBuzzer nofun
  | render => exact h.of_sameClocks s.sameClocks_render nofun
  | count => exact h.of_sameClocks s.sameClocks_countFrame nofun
  | rest => exact h.of_sameClocks s.sameClocks_rest nofun

/-- At a speed at which no instruction is due on a clock at zero, the instruction clock executes
nothing during a pause. -/
theorem running_of_calm (calm : ¬ ratio 1 s.speed ≤ (zero : τ) + tolerance)
    (start : s.paused = true → s.core = zero) (moves : List (Move τ)) (met : Scheduler τ ι)
    (executed : (met, .instruction) ∈ s.trail moves) : met.paused = false := by
  have first : Rests s.speed [] s := ⟨rfl, start, fun _ member => nomatch member⟩
  have rests : Rests s.speed (s.trail moves) (s.moveAll moves) :=
    trail_induction (fun _ _ _ h admitted => h.take calm admitted) first moves
  exact rests.running met executed

/-! ## A clock without rest -/

omit [Sub τ] [LE τ] [LT τ] [DecidableLE τ] [DecidableLT τ] [InputDevice ι] in
theorem eventBound_ne_zero (s : Scheduler τ ι) : s.eventBound ≠ 0 :=
  Nat.mul_ne_zero (Nat.succ_ne_zero _) (Nat.succ_ne_zero _)

/-- At any other speed a pause does not keep an advance from executing an instruction, even when no
time passes at all. -/
theorem exists_instruction_of_due (due : ratio 1 s.speed ≤ (zero : τ) + tolerance)
    (early : ¬ frameInterval ≤ s.timer + clampElapsed zero + tolerance) :
    ∃ met, (met, .instruction) ∈ s.trail [.pause, .advance zero] ∧ met.paused = true := by
  let met := s.pause.charge zero
  have frame : met.frameDue = false := decide_eq_false early
  have core : met.coreDue = true := decide_eq_true due
  have event : met.dueEvent = some .instruction := by
    simp only [dueEvent, frame, core, Bool.false_and, Bool.false_eq_true, if_false, if_true]
  obtain ⟨rest, first⟩ : ∃ rest, met.payOutActions met.eventBound = .instruction :: rest := by
    obtain ⟨fuel, bound⟩ := Nat.exists_eq_succ_of_ne_zero met.eventBound_ne_zero
    rw [bound, payOutActions, event]
    exact ⟨_, rfl⟩
  have actions : s.moveAllActions [.pause, .advance zero] =
      .pause :: .charge zero :: .instruction :: (rest ++ []) := by
    show .pause :: .charge zero :: (met.payOutActions met.eventBound ++ []) = _
    rw [first]
    rfl
  rw [trail, actions]
  exact ⟨met, .tail _ (.tail _ (.head _)), rfl⟩

/-- A scheduler executes nothing on its own during a pause, whatever is done to it, exactly if no
instruction is due on a clock at zero at its speed. -/
theorem paused_rests_iff {machine : Machine} {inputs : ι} {speed : Int} {paused : Bool}
    (built : new machine inputs speed paused = .ok s)
    (early : ¬ frameInterval ≤ (zero : τ) + clampElapsed zero + tolerance) :
    (∀ moves met, (met, .instruction) ∈ s.trail moves → met.paused = false) ↔
      ¬ ratio 1 speed.toNat ≤ (zero : τ) + tolerance := by
  obtain ⟨_, start⟩ := eq_of_new built
  have kept : s.speed = speed.toNat := by rw [start]; rfl
  have core : s.core = zero := by rw [start]; rfl
  have timer : s.timer = zero := by rw [start]; rfl
  rw [← kept]
  constructor
  · intro rests due
    have early : ¬ frameInterval ≤ s.timer + clampElapsed zero + tolerance := timer ▸ early
    obtain ⟨met, executed, paused⟩ := exists_instruction_of_due due early
    rw [rests _ met executed] at paused
    cases paused
  · intro calm
    exact running_of_calm calm fun _ => core

example : ¬ ratio 1 999999999 ≤ (zero : Float) + tolerance := by decide +kernel

/-- At seven hundred instructions a second, floating-point time keeps every pause. -/
theorem paused_rests_iff_default :
    ∃ s : Scheduler Float Playback,
      new (Machine.new {} false false (.cycle [])) Playback.silent 700 true = .ok s ∧
      (¬ frameInterval ≤ (zero : Float) + clampElapsed zero + tolerance) ∧
      ∀ moves met, (met, .instruction) ∈ s.trail moves → met.paused = false := by
  have built : new (Machine.new {} false false (.cycle [])) Playback.silent 700 true = .ok _ :=
    new_eq_ok (τ := Float) _ _ true (by decide) (by decide +kernel)
  have early : ¬ frameInterval ≤ (zero : Float) + clampElapsed zero + tolerance := by decide +kernel
  exact ⟨_, built, early, (paused_rests_iff built early).mpr (by decide +kernel)⟩

/-- At a thousand million, a scheduler that is paused from its start executes an instruction. -/
theorem instruction_during_pause :
    ∃ s : Scheduler Float Playback,
      new (Machine.new {} false false (.cycle [])) Playback.silent 1000000000 true = .ok s ∧
      ∃ met, (met, .instruction) ∈ s.trail [.pause, .advance zero] ∧ met.paused = true := by
  have built : new (Machine.new {} false false (.cycle [])) Playback.silent 1000000000 true =
      .ok _ := new_eq_ok (τ := Float) _ _ true (by decide) (by decide +kernel)
  exact ⟨_, built, exists_instruction_of_due (by decide +kernel) (by decide +kernel)⟩

end Chip8.Scheduler
