/-
Smoothed pressure advance. Segments of an extruder queue carry the filament position in the first
component of their point, and a second component of the direction that is not zero marks motion that
is advanced. The advanced position is the filament position plus a multiple of its velocity; the
extruder follows its mean over a window, weighted by a triangle:

  smooth(t) = ∫ advanced(x) · (h - |t - x|) dx over [t - h, t + h], divided by h²

where h is half the smoothing time.
-/
import PrinterMotion.Kinematics.Fault
import PrinterMotion.Motion.Cursor

namespace PrinterMotion

/-- Settings of an extruder stepper. -/
structure PressureAdvance (α : Type) where
  advance : α
  halfSmooth : α
  /-- One over the square of `halfSmooth`, or zero without smoothing. -/
  invSquare : α
deriving Repr

namespace PressureAdvance

variable {α : Type} [Scalar α]

/-- Neither advance nor smoothing. -/
def off : PressureAdvance α := ⟨0.0, 0.0, 0.0⟩

/-- Settings from the advance and the smoothing time. A smoothing time of zero turns both off. -/
@[specialize] def of? (advance smoothTime : α) : Except (KinematicsError α) (PressureAdvance α) :=
  if (0.0 : α) ≤ advance ∧ (0.0 : α) ≤ smoothTime then
    let h := 0.5 * smoothTime
    .ok ⟨advance, h, if (0.0 : α) < h then 1.0 / (h * h) else 0.0⟩
  else .error (.invalidParameter (.pressureAdvance advance smoothTime))

/-- The smoothing time. -/
@[specialize] def smoothTime (pa : PressureAdvance α) : α := 2.0 * pa.halfSmooth

/-! ## Integrals over one segment -/

/-- The integral of `base + t · (velocity + t · halfAccel)` over `[a, b]`. -/
@[specialize] def integral (base velocity halfAccel a b : α) : α :=
  let halfV := 0.5 * velocity
  let sixthA := halfAccel / 3.0
  let atA := a * (base + a * (halfV + a * sixthA))
  let atB := b * (base + b * (halfV + b * sixthA))
  atB - atA

/-- The integral of `t · (base + t · (velocity + t · halfAccel))` over `[a, b]`. -/
@[specialize] def momentIntegral (base velocity halfAccel a b : α) : α :=
  let halfB := 0.5 * base
  let thirdV := velocity / 3.0
  let eighthA := 0.25 * halfAccel
  let atA := a * a * (halfB + a * (thirdV + a * eighthA))
  let atB := b * b * (halfB + b * (thirdV + b * eighthA))
  atB - atA

/-- The integral of a segment's advanced position over the part of `[a, b]` within the segment, with
the weight `t - pivot`; `base` is the filament position at the start of the segment. -/
@[specialize] def weighted (pa : PressureAdvance α) (s : Segment α) (base a b pivot : α) : α :=
  let a := Scalar.max a 0.0
  let b := Scalar.min b s.duration
  let k : α := if s.direction.y != (0.0 : α) then pa.advance else 0.0
  let base := base + k * s.velocity
  let velocity := s.velocity + k * 2.0 * s.halfAccel
  let area := integral base velocity s.halfAccel a b
  let moment := momentIntegral base velocity s.halfAccel a b
  moment - pivot * area

/-! ## The window around a moment -/

/-- The places in front of the cursor that a window from `start` on meets, nearest first, each with the
start of the window counted from its own start. -/
@[specialize] def behind (c : Cursor α) (start : α) : Nat → List (Segment α × α)
  | 0 => []
  | fuel + 1 =>
    if start < (0.0 : α) then
      let p := c.prev
      let s := p.current
      let start := start + s.duration
      (s, start) :: behind p start fuel
    else []

/-- The places behind the cursor that a window up to `finish` meets, nearest first, each with the end
of the window counted from its own start; `duration` is that of the cursor's own place. -/
@[specialize] def ahead (c : Cursor α) (finish duration : α) : Nat → List (Segment α × α)
  | 0 => []
  | fuel + 1 =>
    if duration < finish then
      let finish := finish - duration
      let n := c.next
      let s := n.current
      (s, finish) :: ahead n finish s.duration fuel
    else []

/-- More places than a window of the given length can meet: all queued ones, and one hold per second. -/
@[specialize] def reach (c : Cursor α) (length : α) : Nat :=
  c.segments.size + c.index.natAbs + (Scalar.floor (Scalar.abs length)).toNat + 2

/-- The integral over the window around `time`, relative to the filament position at the start of the
cursor's place: rising weight up to `time`, falling weight behind it. -/
@[specialize] def window (pa : PressureAdvance α) (c : Cursor α) (time : α) : α :=
  let s := c.current
  let start := time - pa.halfSmooth
  let finish := time + pa.halfSmooth
  let home := s.position.x
  let own := pa.weighted s 0.0 start time start - pa.weighted s 0.0 time finish finish
  let withPast := (behind c start (reach c start)).foldl
    (fun sum (p, start) => sum + pa.weighted p (p.position.x - home) start p.duration start) own
  (ahead c finish s.duration (reach c finish)).foldl
    (fun sum (n, finish) => sum - pa.weighted n (n.position.x - home) 0.0 finish finish) withPast

/-- The position of the extruder stepper. -/
@[specialize] def position (pa : PressureAdvance α) (c : Cursor α) (time : α) : α :=
  let s := c.current
  if pa.halfSmooth == (0.0 : α) then s.position.x + s.distanceAt time
  else s.position.x + pa.window c time * pa.invSquare

end PressureAdvance

end PrinterMotion
