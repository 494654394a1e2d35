/-
The state of one stepper between flushes, the steps it emits, and the ways step generation can fail. What
is kept from flush to flush is apart from the model, as steps are generated alike for any position function.
-/
import PrinterMotion.Kinematics.Layers
import PrinterMotion.Motion.Queue

namespace PrinterMotion

/-- Why steps cannot be generated. -/
inductive StepError (α : Type) where
  | beyondQueue (time : α) (queueEnd : Option α)
  | notConverged (time : α) (iterations : Nat)
  | notFinite (model : String) (time : α)
  | outOfOrder (time last : α)
  /-- A range holds more steps than `StepTracker.stepLimit`. -/
  | tooManySteps (time : α)
deriving Repr

/-- The wording of a failure. -/
def StepError.message : StepError Float → String
  | .beyondQueue time queueEnd =>
    s!"Flush time {Decimal.fixed 6 time} is beyond the queued moves (queue end " ++
      Decimal.optional queueEnd ++ ")"
  | .notConverged time iterations =>
    s!"Step search did not converge near {Decimal.fixed 6 time} after {iterations} iterations"
  | .notFinite model time =>
    s!"{model} kinematics returned a non-finite position at {Decimal.fixed 6 time}"
  | .outOfOrder time last =>
    s!"Step at {Decimal.fixed 9 time} does not follow previous step at {Decimal.fixed 9 last}"
  | .tooManySteps time => s!"Too many steps near {Decimal.fixed 6 time}"

/-- One step pulse. -/
structure Step (α : Type) where
  time : α
  /-- Whether the step raises the position. -/
  forward : Bool
  /-- The commanded position once the step is taken. -/
  position : α
deriving Repr

/-- The direction of a step as a signed unit. -/
def Step.direction {α : Type} (s : Step α) : Int := if s.forward then 1 else -1

/-- The queue a stepper takes its motion from. -/
inductive QueueRef where
  | toolhead
  | extra (name : String)
deriving Repr, DecidableEq

/-- How far the steps of a stepper have been generated. -/
structure StepTracker (α : Type) where
  stepDistance : α
  /-- The position that all emitted steps add up to. -/
  commanded : α
  /-- Steps up to this time have been generated. -/
  flushed : α
  /-- The end of the latest motion that moved the stepper. -/
  lastActive : α
  /-- The time of the latest step, if one was taken. -/
  lastStep : Option α
  /-- The direction of the latest search. -/
  forward : Bool
deriving Repr

/-- A stepper with its model, and the queue it takes its motion from, if it has one. -/
structure Stepper (α : Type) extends StepTracker α where
  name : String
  model : Model α
  queue : Option QueueRef
deriving Repr

namespace Stepper

variable {α : Type} [Scalar α]

/-- A stepper at position zero that has not moved and has no queue. -/
def new (name : String) (stepDistance : α) (model : Model α) : Stepper α :=
  ⟨⟨stepDistance, 0.0, 0.0, 0.0, none, false⟩, name, model, none⟩

/-- The time of the latest step, if it is finite. -/
def lastStep? (s : Stepper α) : Option α := s.lastStep.filter Scalar.isFinite

/-- Declares that the toolhead stands at a point. -/
def setPosition (s : Stepper α) (p : Coord α) : Stepper α := { s with commanded := s.model.positionAt p }

/-- A step length with the sign of a direction. -/
@[specialize] def signed (stepDistance : α) (forward : Bool) : α :=
  if forward then stepDistance else -stepDistance

/-- The start of the next motion that moves the stepper among the segments in progress after its last
flush, looking no further than the segment that contains `time`. -/
def nextActive? (s : Stepper α) (q : Queue α) (time : α) : Option α :=
  match q.firstAfter? s.flushed with
  | none => none
  | some first => go (q.active.toList.drop first)
where
  /-- Looks through the segments in order. -/
  go : List (Segment α) → Option α
    | [] => none
    | m :: rest =>
      if s.model.axes.meets m.direction then some m.start
      else if time ≤ m.finish then none
      else go rest

end Stepper

end PrinterMotion
