/-
Simulated time: a whole number of nanoseconds since the start, of which the seconds fit 64 bits.
-/
import PrinterMotion.Scalar

namespace PrinterMotion

/-- A point in simulated time, or a stretch of it, in nanoseconds. -/
abbrev Instant := Nat

namespace Instant

/-- Nanoseconds in a second. -/
def perSecond : Nat := 1000000000

/-- The end of time. -/
def limit : Nat := UInt64.size * perSecond

/-- A later point in time, if there is one. -/
def add? (a b : Instant) : Option Instant := if a + b < limit then some (a + b) else none

variable {α : Type} [Scalar α]

/-- The nanosecond nearest to a number of seconds, a half going to the even neighbour; zero for a negative
number, and nothing for one beyond the end of time. -/
def ofSeconds? (seconds : α) : Option Instant :=
  let seconds := Scalar.max seconds 0.0
  if seconds < (18446744073709551616.0 : α) then
    some (Scalar.scaledRound perSecond seconds).toNat
  else none

/-- The time in seconds. -/
def seconds (t : Instant) : α :=
  Scalar.ofNat (t / perSecond) + Scalar.ofNat (t % perSecond) / 1000000000.0

end Instant

/-- The time of a simulation, which never goes back. -/
structure SimulationClock where
  now : Instant
deriving Repr, DecidableEq

namespace SimulationClock

/-- The clock at the start. -/
def zero : SimulationClock := ⟨0⟩

/-- Goes on to a point in time, unless it is past. -/
def advance (c : SimulationClock) (t : Instant) : SimulationClock := ⟨max c.now t⟩

theorem le_advance (c : SimulationClock) (t : Instant) : c.now ≤ (c.advance t).now :=
  Nat.le_max_left ..

end SimulationClock

end PrinterMotion
