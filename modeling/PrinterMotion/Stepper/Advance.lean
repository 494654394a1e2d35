/-
Generating all steps of a stepper up to a time: the searches of the flush, one after the other. A
failure ends the flush; what was generated before it is lost to the caller, but the stepper keeps the
times it has reached.
-/
import PrinterMotion.Stepper.Scan
import PrinterMotion.Stepper.Search

namespace PrinterMotion

variable {α : Type} [Scalar α]

/-- The position `time` seconds into a place, if there is one; `base` is the time of the place. -/
@[specialize] def Kinematics.evaluate (k : Kinematics α) (c : Cursor α) (base time : α) :
    Except (StepError α) α :=
  let p := k.position c time
  if k.isPosition p then .ok p else .error (.notFinite k.name (base + time))

namespace StepTracker

/-- More steps than any range holds. -/
def stepLimit : Nat := twoTo 62

/-- Searches one segment between two absolute times, adding its steps to those found before. -/
@[specialize] def searchSegment (s : StepTracker α) (k : Kinematics α) (q : Queue α) (v : Visit α)
    (steps : Array (Step α)) : StepTracker α × Except (StepError α) (Array (Step α)) :=
  match q.cursor? v.segment with
  | none => (s, .ok steps)
  | some c =>
    let m := c.current
    let start := Scalar.max (v.start - m.start) 0.0
    let finish := Scalar.min (v.stop - m.start) m.duration
    if finish ≤ start then (s, .ok steps)
    else
      let r := Search.run (k.evaluate c m.start) m.start s.stepDistance finish stepLimit
        (.begin s.commanded s.stepDistance start finish s.forward) steps s.lastStep
      let s := { s with lastStep := r.lastStep }
      match r.outcome with
      | .error e => (s, .error e)
      | .ok search =>
        ({ s with
            commanded := search.target - Stepper.signed s.stepDistance search.forward
            forward := search.forward }, .ok r.steps)

/-- Runs the searches of a flush in order. -/
@[specialize] def runVisits (k : Kinematics α) (q : Queue α) :
    List (Visit α) → StepTracker α → Array (Step α) →
      StepTracker α × Except (StepError α) (Array (Step α))
  | [], s, steps => (s, .ok steps)
  | v :: rest, s, steps =>
    match s.searchSegment k q v steps with
    | (s, .error e) => (s, .error e)
    | (s, .ok steps) =>
      let s := match v.activeUntil with
        | some t => { s with lastActive := t }
        | none => s
      runVisits k q rest s steps

/-- Generates the steps between the last flush and `time`, which the queue must reach. -/
@[specialize] def advance (s : StepTracker α) (k : Kinematics α) (queue : Option (Queue α)) (time : α) :
    StepTracker α × Except (StepError α) (Array (Step α)) :=
  if time ≤ s.flushed then (s, .ok #[])
  else
    match queue with
    | none => (s, .error (.beyondQueue time none))
    | some q =>
      match q.finish? with
      | none => (s, .error (.beyondQueue time none))
      | some finish =>
        if time ≤ finish then runVisits k q (s.visits k q time) { s with flushed := time } #[]
        else (s, .error (.beyondQueue time (some finish)))

end StepTracker

/-- Generates the steps of a stepper between its last flush and `time`. -/
@[specialize] def Stepper.advance (s : Stepper α) (queue : Option (Queue α)) (time : α) :
    Stepper α × Except (StepError α) (Array (Step α)) :=
  let (tracker, result) := s.toStepTracker.advance s.model.kinematics queue time
  ({ s with toStepTracker := tracker }, result)

end PrinterMotion
