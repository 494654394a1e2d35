/-
A place in a row of segments. Ahead of the first segment and behind the last one the machine stands
still, in holds of one second each, so that a model which looks back or ahead in time always finds a
trajectory. A cursor may read another segment in place of the one it was set on.
-/
import PrinterMotion.Motion.Segment

namespace PrinterMotion

/-- Seconds of the hold in front of the first queued motion, and of each hold outside the row. -/
def holdTime {α : Type} [Scalar α] : α := 1.0

/-- A place in a non-empty row of segments; places outside the row are holds. -/
structure Cursor (α : Type) where
  segments : Array (Segment α)
  nonempty : 0 < segments.size
  index : Int
  /-- The place at which another segment is read, and that segment. -/
  replaced : Option (Int × Segment α)

namespace Cursor

variable {α : Type}

/-- The cursor on the segment at an index of the row. -/
def at? (segments : Array (Segment α)) (i : Nat) : Option (Cursor α) :=
  if h : i < segments.size then some ⟨segments, by omega, i, none⟩ else none

/-- The cursor on a row of one segment. -/
def single (s : Segment α) : Cursor α := ⟨#[s], by simp, 0, none⟩

/-- The same place, reading `s` there; the neighbours stay. -/
def withCurrent (c : Cursor α) (s : Segment α) : Cursor α := { c with replaced := some (c.index, s) }

/-- Whether the place is a segment of the row. -/
def isQueued (c : Cursor α) : Bool := 0 ≤ c.index && c.index < c.segments.size

/-- One place back. -/
def prev (c : Cursor α) : Cursor α := { c with index := c.index - 1 }

/-- One place ahead. -/
def next (c : Cursor α) : Cursor α := { c with index := c.index + 1 }

/-- A number of places ahead, or back if it is negative. -/
def walk (c : Cursor α) (places : Int) : Cursor α := { c with index := c.index + places }

variable [Scalar α]

/-- The segment of the row at the place, or the hold that stands outside the row. -/
@[specialize] def queued (c : Cursor α) : Segment α :=
  have := c.nonempty
  if c.index < 0 then
    let first := c.segments[0]
    .hold (first.start - Scalar.ofInt (-c.index) * holdTime) holdTime first.position
  else if h : c.index.toNat < c.segments.size then c.segments[c.index.toNat]
  else
    let last := c.segments[c.segments.size - 1]
    .hold (last.finish + Scalar.ofInt (c.index - c.segments.size) * holdTime) holdTime last.target

/-- The segment read at the place. -/
@[specialize] def current (c : Cursor α) : Segment α :=
  match c.replaced with
  | some (i, s) => if i = c.index then s else c.queued
  | none => c.queued

/-- Goes back until `time`, counted from the start of the place, is not negative. In front of the row
nothing moves, so there is no need to go on. -/
@[specialize] def rewind (c : Cursor α) (time : α) : Cursor α × α :=
  if c.index < 0 then (c, time)
  else if time < (0.0 : α) then
    let p := c.prev
    rewind p (time + p.current.duration)
  else (c, time)
termination_by (c.index + 1).toNat
decreasing_by simp only [prev]; omega

/-- Goes ahead until `time` does not exceed the duration of the place, or the row ends. -/
@[specialize] def forward (c : Cursor α) (time : α) : Cursor α × α :=
  if c.segments.size ≤ c.index then (c, time)
  else
    let duration := c.current.duration
    if duration < time then forward c.next (time - duration) else (c, time)
termination_by (c.segments.size - c.index).toNat
decreasing_by simp only [next]; omega

/-- The place that contains `time`, counted from the start of this one, and the time within it. -/
@[specialize] def seek (c : Cursor α) (time : α) : Cursor α × α :=
  let (c, time) := c.rewind time
  c.forward time

/-- The point at `time`, counted from the start of the place; it may lie in another segment. -/
@[specialize] def coordAt (c : Cursor α) (time : α) : Coord α :=
  let (c, time) := c.seek time
  c.current.coordAt time

/-- One component of `coordAt`. -/
@[specialize] def axisAt (c : Cursor α) (a : Axis) (time : α) : α := (c.coordAt time).get a

end Cursor

end PrinterMotion
