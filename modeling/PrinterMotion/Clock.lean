/-
Readings of a controller's 64-bit tick counter and the host times they stand for. Differences between
readings are taken modulo `2 ^ 64` and read as signed, so an estimate works on both sides of its
reference point and across the end of the counter.
-/
import PrinterMotion.Scalar

namespace PrinterMotion

/-- What is known of the relation between a controller's clock and host time. -/
structure ClockEstimate (α : Type) where
  /-- The latest reading seen, to which 32-bit readings are extended. -/
  lastClock : UInt64
  /-- A reading and the host time it was taken at. -/
  refClock : UInt64
  refTime : α
  /-- Ticks per second. -/
  freq : α
deriving Repr

namespace Clock

/-- A reading moved by a signed number of ticks, modulo `2 ^ 64`. -/
def shift (clock : UInt64) (ticks : Int) : UInt64 := UInt64.ofInt (clock.toNat + ticks)

/-- The signed number of ticks from one reading to another, the shorter way round. -/
def diff (later earlier : UInt64) : Int := Int.bmod ((later.toNat : Int) - earlier.toNat) UInt64.size

/-- The nearest value that fits a signed 64-bit word. -/
def clampSigned (n : Int) : Int := max (-(twoTo 63 : Int)) (min n ((twoTo 63 : Int) - 1))

/-- The nearest value that fits an unsigned 64-bit word. -/
def clampWord (n : Int) : UInt64 := UInt64.ofNat (min n.toNat (UInt64.size - 1))

/-- The low half of a reading. -/
def low (clock : UInt64) : UInt32 := clock.toUInt32

/-- The sum of a reading and a number of ticks, if it fits the counter. -/
def add? (clock ticks : UInt64) : Option UInt64 :=
  if clock.toNat + ticks.toNat < UInt64.size then some (clock + ticks) else none

/-- A sum that fits is the sum. -/
theorem toNat_add? {a b c : UInt64} (h : add? a b = some c) : c.toNat = a.toNat + b.toNat := by
  unfold add? at h
  split at h
  · cases h; rw [UInt64.toNat_add, Nat.mod_eq_of_lt (by assumption)]
  · cases h

end Clock

namespace ClockEstimate

variable {α : Type}

/-- The estimate with a reference point that is also the latest reading. -/
def ofReference (refClock : UInt64) (refTime freq : α) : ClockEstimate α :=
  ⟨refClock, refClock, refTime, freq⟩

/-- A 32-bit reading extended by the high half that brings it nearest to the latest reading. -/
def extend (ce : ClockEstimate α) (reading : UInt32) : UInt64 :=
  Clock.shift ce.lastClock (Int.bmod ((reading.toNat : Int) - (Clock.low ce.lastClock).toNat) UInt32.size)

/-- The estimate after a reading; the latest reading never goes back. -/
def observe (ce : ClockEstimate α) (clock : UInt64) : ClockEstimate α :=
  { ce with lastClock := if ce.lastClock < clock then clock else ce.lastClock }

variable [Scalar α]

/-- The clock that reads zero at host time zero. -/
def ofFrequency (freq : α) : ClockEstimate α := ofReference 0 0.0 freq

/-- The host time of a reading. -/
def toTime (ce : ClockEstimate α) (clock : UInt64) : α :=
  Scalar.ofInt (Clock.diff clock ce.refClock) / ce.freq + ce.refTime

/-- The reading nearest to a host time. -/
def ofTime (ce : ClockEstimate α) (time : α) : UInt64 :=
  Clock.shift ce.refClock (Clock.clampSigned (Scalar.floor ((time - ce.refTime) * ce.freq + 0.5)))

/-- The whole ticks in a number of seconds; none in a negative one. -/
def ticks (ce : ClockEstimate α) (seconds : α) : UInt64 :=
  Clock.clampWord (Scalar.floor (Scalar.max (seconds * ce.freq) 0.0))

end ClockEstimate

end PrinterMotion
