/-
Impulse trains of input shapers. A shaped axis position is the sum of the axis positions at a few
offsets in time, each weighted by the amplitude of its pulse. Weights sum to one and their centre lies
at offset zero, so motion at constant velocity is left as it is.
-/
import PrinterMotion.Kinematics.Fault
import PrinterMotion.Motion.Cursor

namespace PrinterMotion

/-- One impulse: its offset in time and its weight. -/
structure Pulse (α : Type) where
  time : α
  weight : α
deriving Repr

/-- The pulses of one axis in order of time; without pulses the axis is not shaped. -/
abbrev PulseTrain (α : Type) := List (Pulse α)

namespace PulseTrain

/-- The largest number of pulses in a train. -/
def maxPulses : Nat := 5

variable {α : Type} [Scalar α]

/-- The train of a shaper with the given amplitudes and times. Amplitudes are divided by their sum;
times are negated, which reverses their order, and moved so that the weighted mean is zero. -/
@[specialize] def ofShaper (n : Nat) (amplitudes times : List α) :
    Except (ParameterFault α) (PulseTrain α) :=
  if maxPulses < n then .error (.tooManyPulses n maxPulses)
  else if amplitudes.length ≠ n ∨ times.length ≠ n then
    .error (.pulseCounts n amplitudes.length times.length)
  else if n = 0 then .ok []
  else
    let total := Scalar.sum amplitudes
    if total == (0.0 : α) || !Scalar.isFinite total then .error .amplitudeSum
    else
      let reversed := ((amplitudes.zip times).map fun (a, t) => Pulse.mk (-t) (a / total)).reverse
      let centre := Scalar.sum (reversed.map fun p => p.weight * p.time)
      .ok (reversed.map fun p => { p with time := p.time - centre })

/-- How far the shaped position looks ahead of the commanded one. -/
@[specialize] def lookAhead (train : PulseTrain α) : α :=
  match train.getLast? with
  | some p => p.time
  | none => 0.0

/-- How far the shaped position looks back behind the commanded one. -/
@[specialize] def lookBehind (train : PulseTrain α) : α :=
  match train.head? with
  | some p => -p.time
  | none => 0.0

/-- The weighted sum of the positions along an axis around `time`. -/
@[specialize] def shape (train : PulseTrain α) (c : Cursor α) (a : Axis) (time : α) : α :=
  Scalar.sum (train.map fun p => p.weight * c.axisAt a (time + p.time))

end PulseTrain

end PrinterMotion
