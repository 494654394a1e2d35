/-
The queue of motion segments between the planner and the steppers. Segments are appended in order of
time, gaps are filled with holds, and segments no stepper can still look at are retired into a history.
-/
import PrinterMotion.Motion.Cursor
import PrinterMotion.Decimal.Layout

namespace PrinterMotion

/-- Why a segment is refused. -/
inductive QueueError (α : Type) where
  | outOfOrder (start queueEnd : α)
  | invalidTiming (start duration : α)
deriving Repr

/-- The wording of a refusal. -/
def QueueError.message : QueueError Float → String
  | .outOfOrder start queueEnd =>
    s!"Move at {Decimal.fixed 6 start} starts before end of queue {Decimal.fixed 6 queueEnd}"
  | .invalidTiming start duration =>
    s!"Invalid move timing (print_time={Decimal.plain start}, move_t={Decimal.plain duration})"

/-- A time later than all motion. -/
def never {α : Type} [Scalar α] : α := 9999999999999999.9

/-- Segments whose ends are this close meet. -/
def joinTolerance {α : Type} [Scalar α] : α := 0.000000001

/-- Queued segments, and retired ones with motion, newest first. -/
structure Queue (α : Type) where
  active : Array (Segment α)
  history : List (Segment α)
  /-- Segments that end at or before this time have been retired; none is set in a new queue. -/
  retiredBefore : Option α
deriving Repr

namespace Queue

variable {α : Type}

/-- The queue without motion. -/
def empty : Queue α := ⟨#[], [], none⟩

/-- The number of queued segments. -/
def size (q : Queue α) : Nat := q.active.size

/-- Whether no segment is queued. -/
def isEmpty (q : Queue α) : Bool := q.active.isEmpty

/-- The cursor on the queued segment at an index. -/
def cursor? (q : Queue α) (i : Nat) : Option (Cursor α) := Cursor.at? q.active i

variable [Scalar α]

/-- The time at which the last queued segment ends. -/
@[specialize] def finish? (q : Queue α) : Option α := q.active.back?.map Segment.finish

/-- The index of the first segment that is still in progress after `time`. -/
@[specialize] def firstAfter? (q : Queue α) (time : α) : Option Nat :=
  q.active.findIdx? fun s => time < s.finish

/-! ## Appending -/

/-- Queues a segment. A gap behind the last segment is filled with a hold, and the first segment of an
empty queue gets a hold of `holdTime` in front of it. -/
@[specialize] def add (q : Queue α) (s : Segment α) : Except (QueueError α) (Queue α) :=
  if !Scalar.isFinite s.start || !Scalar.isFinite s.duration || s.duration < (0.0 : α) then
    .error (.invalidTiming s.start s.duration)
  else
    match q.active.back? with
    | some last =>
      let queueEnd := last.finish
      if s.start < queueEnd - joinTolerance then .error (.outOfOrder s.start queueEnd)
      else if queueEnd + joinTolerance < s.start then
        let gap := Segment.hold queueEnd (s.start - queueEnd) last.target
        .ok { q with active := (q.active.push gap).push s }
      else .ok { q with active := q.active.push s }
    | none =>
      let leadIn := Segment.hold (s.start - holdTime) holdTime s.position
      .ok { q with active := (q.active.push leadIn).push s }

/-- A trapezoid to be queued: the times of its phases, the line it runs along and its speeds. -/
structure Trapezoid (α : Type) where
  start : α
  accelTime : α
  cruiseTime : α
  decelTime : α
  position : Coord α
  direction : Coord α
  startVelocity : α
  cruiseVelocity : α
  accel : α
deriving Repr

/-- The segments of a trapezoid, one per phase that lasts, each from where the one before it ends. -/
@[specialize] def Trapezoid.segments (t : Trapezoid α) : List (Segment α) :=
  let up : List (Segment α) :=
    if (0.0 : α) < t.accelTime then
      [⟨t.start, t.accelTime, t.startVelocity, 0.5 * t.accel, t.position, t.direction, .accelerate⟩]
    else []
  let (time, place) := after up t.start t.position
  let level : List (Segment α) :=
    if (0.0 : α) < t.cruiseTime then
      [⟨time, t.cruiseTime, t.cruiseVelocity, 0.0, place, t.direction, .cruise⟩]
    else []
  let (time, place) := after level time place
  let down : List (Segment α) :=
    if (0.0 : α) < t.decelTime then
      [⟨time, t.decelTime, t.cruiseVelocity, -0.5 * t.accel, place, t.direction, .decelerate⟩]
    else []
  up ++ level ++ down
where
  /-- The time and place behind a phase. -/
  after (phase : List (Segment α)) (time : α) (place : Coord α) : α × Coord α :=
    match phase with
    | [] => (time, place)
    | s :: _ => (time + s.duration, s.target)

/-- Queues segments one after the other up to the first that is refused; those before it stay. -/
@[specialize] def addAll (q : Queue α) : List (Segment α) → Queue α × Option (QueueError α)
  | [] => (q, none)
  | s :: rest =>
    match q.add s with
    | .ok q => addAll q rest
    | .error e => (q, some e)

/-- Queues the segments of a trapezoid. -/
@[specialize] def append (q : Queue α) (t : Trapezoid α) : Queue α × Option (QueueError α) :=
  q.addAll t.segments

/-- Holds the last position until `time`, if the queue has motion and ends before that. -/
@[specialize] def holdUntil (q : Queue α) (time : α) : Except (QueueError α) (Queue α) :=
  match q.active.back? with
  | none => .ok q
  | some last =>
    let queueEnd := last.finish
    if time ≤ queueEnd then .ok q
    else q.add (.hold queueEnd (time - queueEnd) last.target)

/-! ## Retiring -/

/-- The later of a release time that may not be set yet and a time. -/
@[specialize] def release (before : Option α) (time : α) : Option α :=
  match before with
  | none => some time
  | some t => some (Scalar.max t time)

/-- Moves the leading segments that end at or before `time` into the history; still ones are dropped. -/
@[specialize] def retire (q : Queue α) (time : α) : Queue α :=
  let gone := (q.active.takeWhile fun s => s.finish ≤ time).toList
  { active := q.active.extract gone.length q.active.size
    history := gone.foldl (fun h s => if s.isStill then h else s :: h) q.history
    retiredBefore := gone.foldl (fun r s => release r s.finish) q.retiredBefore }

/-- The start of the first queued segment. -/
@[specialize] def firstStart (q : Queue α) : α :=
  match q.active[0]? with
  | some s => s.start
  | none => never

/-- Drops leading segments that end at or before `time`, of a list with the oldest first; the newest
always stays. -/
@[specialize] def expire (time : α) : List (Segment α) → List (Segment α)
  | s :: t :: rest => if s.finish ≤ time then expire time (t :: rest) else s :: t :: rest
  | short => short

/-- Retires segments that end at or before `time` and drops history that ends at or before `clear`. -/
@[specialize] def finalize (q : Queue α) (time clear : α) : Queue α :=
  let q := q.retire time
  { q with
    retiredBefore := release q.retiredBefore (Scalar.min time q.firstStart)
    history := (expire clear q.history.reverse).reverse }

/-- History up to `time`: segments that start later are dropped and the one in progress is cut short. -/
@[specialize] def cutHistory (time : α) : List (Segment α) → List (Segment α)
  | [] => []
  | s :: rest =>
    if s.start < time then
      if time < s.finish then { s with duration := time - s.start } :: rest else s :: rest
    else cutHistory time rest

/-- Notes that the machine was declared to stand at `position`: all segments are retired, history past
`time` is forgotten, and a marker is left. -/
@[specialize] def setPosition (q : Queue α) (time : α) (position : Coord α) : Queue α :=
  let q := q.retire never
  { q with history := .hold time 0.0 position :: cutHistory time q.history }

/-- Up to `limit` queued and retired segments that overlap `[from, till]`, newest first; the search
ends at the first one that ends before the interval. -/
@[specialize] def recent (q : Queue α) (limit : Nat) (from_ till : α) : List (Segment α) :=
  let newestFirst := q.active.toList.reverse ++ q.history
  let inReach := newestFirst.filter fun s => !(till < s.start)
  (inReach.takeWhile fun s => !(s.finish < from_)).take limit

end Queue

end PrinterMotion
