/-
Finding the times at which a stepper crosses its step boundaries. Boundaries lie a whole number of step
lengths from the commanded position. The search looks for a root of the distance to the next boundary:
it seeks ahead in growing strides until the boundary is passed, and then narrows the bracket by the
secant through the last two positions, or by halving where the secant leads out of the bracket. A
stepper that falls back by more than two step lengths has turned, and the boundary behind it is next.
-/
import PrinterMotion.Stepper.Basic

namespace PrinterMotion

/-- The search for the next boundary within one segment; times count from the start of the segment. -/
structure Search (α : Type) where
  /-- The second latest time a position was taken at, and that position. -/
  oldTime : α
  oldPosition : α
  /-- The latest time a position was taken at, and that position. -/
  time : α
  position : α
  forward : Bool
  /-- The boundary looked for. -/
  target : α
  /-- The time of the step before it. -/
  last : α
  /-- The boundary is not crossed before `low`; with a bracket it is crossed by `high`. -/
  low : α
  high : α
  turned : Bool
  bracketed : Bool
  oscillating : Bool
deriving Repr

namespace Search

variable {α : Type} [Scalar α]

/-- The first stride ahead, and the longest one behind a turn. -/
def seekTime : α := 0.0001

/-- A position this near to a boundary is on it. -/
def positionTolerance : α := 0.000000001

/-- A bracket this short is a point. -/
def timeTolerance : α := 0.000000001

/-- What a stepper must fall back beyond two step lengths to have turned. -/
def turnMargin : α := 0.00000001

/-- Positions taken for one step before the search gives up. -/
def maxIterations : Nat := 200

/-- The search from `start` for the first boundary in the given direction. -/
@[specialize] def begin (commanded stepDistance start finish : α) (forward : Bool) : Search α :=
  { oldTime := start, oldPosition := commanded, time := start, position := commanded
    forward, target := commanded + Stepper.signed stepDistance forward
    last := start, low := start, high := Scalar.min (start + seekTime) finish
    turned := false, bracketed := false, oscillating := false }

/-- The time at which the next position is to be taken, or none when the range is searched. -/
@[specialize] def propose (s : Search α) (finish : α) : Option (α × Search α) :=
  let dist := s.position - s.target
  let oldDist := s.oldPosition - s.target
  let secant := (s.oldTime * dist - s.time * oldDist) / (dist - oldDist)
  if s.low < secant ∧ secant < s.high then some (secant, s)
  else if s.bracketed then some (0.5 * (s.low + s.high), { s with oscillating := false })
  else if finish ≤ s.time then none
  else some (s.high, { s with high := Scalar.min (2.0 * s.high - s.last) finish })

/-- Notes the position at a proposed time. -/
@[specialize] def note (s : Search α) (time position : α) : Search α :=
  { s with oldTime := s.time, oldPosition := s.position, time, position }

/-- Narrows the bracket by the latest position, when it is not on the boundary: the bracket ends there
if the boundary is passed, begins there if it is not, and is laid anew if the stepper has turned. An
end that moves twice in a row from the same side makes the next secant go through one point less. -/
@[specialize] def narrow (s : Search α) (stepDistance : α) : Search α :=
  let dist := s.position - s.target
  let past := if s.forward then dist else -dist
  if (0.0 : α) < past then
    let stuck := s.bracketed && decide (s.oldTime ≤ s.low)
    let s := if stuck && s.oscillating then { s with oldTime := s.time, oldPosition := s.position } else s
    { s with oscillating := s.oscillating || stuck, high := s.time, bracketed := true }
  else if past < -(stepDistance + stepDistance + turnMargin) then
    let forward := !s.forward
    { s with
      forward, target := s.target + 2.0 * Stepper.signed stepDistance forward
      low := s.last, high := s.time, turned := true, bracketed := true, oscillating := false }
  else { s with low := s.time }

/-- Takes in the latest position: whether it settles the crossing, and how the search goes on. -/
@[specialize] def judge (s : Search α) (stepDistance : α) : Bool × Search α :=
  if positionTolerance < Scalar.abs (s.position - s.target) then
    let s := s.narrow stepDistance
    (s.bracketed && !decide (timeTolerance < s.high - s.low), s)
  else (true, s)

/-- The search for the boundary that follows the one just found. -/
@[specialize] def advance (s : Search α) (stepDistance finish : α) : Search α :=
  let stride := Scalar.max (1.5 * (s.time - s.last)) timeTolerance
  let stride := if s.turned && decide (seekTime < stride) then seekTime else stride
  { s with
    target := s.target + Stepper.signed stepDistance s.forward
    last := s.time, low := s.time, high := Scalar.min (s.time + stride) finish
    turned := false, bracketed := false, oscillating := false }

/-- How the search for one boundary ends. -/
inductive Outcome (α : Type) where
  | found (s : Search α)
  /-- The range holds no further boundary. -/
  | ended (s : Search α)
  | failed (e : StepError α)

/-- Searches for one boundary, taking at most `budget` positions. -/
@[specialize] def hunt (eval : α → Except (StepError α) α) (base stepDistance finish : α) :
    (budget : Nat) → Search α → Outcome α
  | budget, s =>
    match s.propose finish with
    | none => .ended s
    | some (t, proposed) =>
      match budget with
      | 0 => .failed (.notConverged (base + s.time) (maxIterations + 1))
      | budget + 1 =>
        match eval t with
        | .error e => .failed e
        | .ok p =>
          let (settled, s) := (proposed.note t p).judge stepDistance
          if settled then .found s else hunt eval base stepDistance finish budget s

/-- The steps found so far in a flush, the time of the latest step ever taken, and how the search of the
range ended. -/
structure Result (α : Type) where
  steps : Array (Step α)
  lastStep : Option α
  outcome : Except (StepError α) (Search α)

/-- Whether a step at `time` follows the latest one. -/
@[specialize] def follows (time : α) : Option α → Bool
  | none => true
  | some last => !decide (time ≤ last)

/-- Searches for boundary after boundary, emitting at most `fuel` steps; `base` is the start of the
segment. -/
@[specialize] def run (eval : α → Except (StepError α) α) (base stepDistance finish : α) :
    (fuel : Nat) → Search α → Array (Step α) → Option α → Result α
  | 0, s, steps, lastStep => ⟨steps, lastStep, .error (.tooManySteps (base + s.time))⟩
  | fuel + 1, s, steps, lastStep =>
    match hunt eval base stepDistance finish maxIterations s with
    | .ended s => ⟨steps, lastStep, .ok s⟩
    | .failed e => ⟨steps, lastStep, .error e⟩
    | .found s =>
      let time := base + s.time
      if follows time lastStep then
        run eval base stepDistance finish fuel (s.advance stepDistance finish)
          (steps.push ⟨time, s.forward, s.target⟩) (some time)
      else ⟨steps, lastStep, .error (.outOfOrder time (lastStep.getD time))⟩

end Search

end PrinterMotion
