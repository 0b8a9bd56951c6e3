import Chip8.Number.Double

/-! Time. The scheduler adds, subtracts and compares spans of time; everything else that it needs to
know of them is here, so that it can keep floating-point time as well as exact time. -/

namespace Chip8

class TimeLine (τ : Type) where
  /-- A fraction of a second. -/
  ratio : Int → Nat → τ
  /-- How often an interval fits into a span; this only bounds a search. -/
  fits : τ → τ → Nat
  /-- Whether a number is within reach of this kind of time. -/
  holds : Nat → Bool

instance : TimeLine Float where
  ratio num den := Number.nearest num 1 / Number.nearest den 1
  fits span interval := (span / interval).toUInt64.toNat
  holds n := (Number.nearest n 1).isFinite

instance : TimeLine Rat where
  ratio num den := mkRat num den
  fits span interval := (span / interval).floor.toNat
  holds _ := true

namespace TimeLine

variable {τ : Type} [TimeLine τ]

def zero : τ := ratio 0 1

/-- Timers, inputs and picture follow this interval. -/
def frameInterval : τ := ratio 1 60

/-- The most time that is made up for after the host has stalled. -/
def maxBacklog : τ := ratio 1 4

/-- An event counts as due when it is this close: repeated subtraction of an interval that is no
exact number drifts. -/
def tolerance : τ := ratio 1 1000000000

/-- The host is asked to wake this much before the next event. -/
def wakeMargin : τ := ratio 1 1000

end TimeLine

end Chip8
