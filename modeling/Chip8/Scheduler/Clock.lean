import Chip8.Failure

/-! Clocks. A session is a row of turns, each with the time that has passed since the one before. -/

namespace Chip8

structure Clock (τ : Type) where
  /-- The readings in order; one that cannot be expressed fails. -/
  reading : Nat → Except Failure τ
  /-- There are no more readings than this. -/
  limit : Nat

namespace Clock

variable {τ σ : Type} [Sub τ]

/-- Makes turns from the reading with number `k` on, as long as there are readings. -/
def driveFrom (c : Clock τ) (turn : σ → τ → σ × Except Failure Bool) (s : σ) (last : τ) (k : Nat) :
    Nat → σ × Except Failure Unit
  | 0 => (s, .error .clockStopped)
  | left + 1 =>
    match c.reading k with
    | .error failure => (s, .error failure)
    | .ok now =>
      match turn s (now - last) with
      | (s, .error failure) => (s, .error failure)
      | (s, .ok true) => (s, .ok ())
      | (s, .ok false) => c.driveFrom turn s now (k + 1) left

/-- Makes turns until one ends the session or fails. Time counts from the first reading; a clock
without further readings is a failure too. -/
def drive (c : Clock τ) (turn : σ → τ → σ × Except Failure Bool) (s : σ) :
    σ × Except Failure Unit :=
  match c.limit with
  | 0 => (s, .error .clockStopped)
  | left + 1 =>
    match c.reading 0 with
    | .error failure => (s, .error failure)
    | .ok start => c.driveFrom turn s start 1 left

end Clock

end Chip8
