/-
Flushing: all steppers generate their steps up to one time, and motion that no stepper can still look
back on is retired.
-/
import PrinterMotion.StepGenerator.Basic

namespace PrinterMotion

/-- The steps of a flush by stepper name, in the order of the names; steppers without steps are left
out. -/
abbrev StepReport (α : Type) := List (String × Array (Step α))

namespace StepReport

variable {α : Type}

/-- Puts the steps of a name into their place; earlier steps of the same name are dropped. -/
def insert (name : String) (steps : Array (Step α)) : StepReport α → StepReport α
  | [] => [(name, steps)]
  | (n, old) :: rest =>
    if n = name then (n, steps) :: rest
    else if name < n then (name, steps) :: (n, old) :: rest
    else (n, old) :: insert name steps rest

/-- The steps of a name. -/
def get (r : StepReport α) (name : String) : Array (Step α) := (r.lookup name).getD #[]

/-- Adds the steps of a later flush behind those of an earlier one. -/
def join (r later : StepReport α) : StepReport α :=
  later.foldl (fun r (name, steps) => insert name (r.get name ++ steps) r) r

end StepReport

namespace StepGenerator

variable {α : Type} [Scalar α]

/-- Holds the last position of each queue until `time`, up to the first that refuses. -/
def holdQueues (time : α) :
    List QueueRef → StepGenerator α → StepGenerator α × Option (GeneratorError α)
  | [], g => (g, none)
  | ref :: rest, g =>
    match (g.queue ref).holdUntil time with
    | .error e => (g, some (.queue e))
    | .ok q => holdQueues time rest (g.setQueue ref q)

/-- Advances each stepper whose queue has motion to `time`, up to the first that fails. -/
def advanceMembers (g : StepGenerator α) (time : α) :
    List (Member α) → StepReport α → List (Member α) × Except (GeneratorError α) (StepReport α)
  | [], report => ([], .ok report)
  | m :: rest, report =>
    let queue := m.stepper.queue.map g.queue
    if (queue.map Queue.isEmpty).getD true then
      let (rest, result) := advanceMembers g time rest report
      (m :: rest, result)
    else
      match m.stepper.advance queue time with
      | (s, .error e) => ({ m with stepper := s } :: rest, .error (.step s.name e))
      | (s, .ok steps) =>
        let report := if steps.isEmpty then report else report.insert s.name steps
        let (rest, result) := advanceMembers g time rest report
        ({ m with stepper := s } :: rest, result)

/-- Retires motion of the queues that ends at or before `time`, and history that ends at or before
`clear`. -/
def finalizeQueues (g : StepGenerator α) (time clear : α) : StepGenerator α :=
  g.servedQueues.foldl (fun g ref => g.setQueue ref ((g.queue ref).finalize time clear)) g

/-- Generates steps up to the flush delay before `time`, but never back behind the last flush. A failure
of one stepper leaves the steppers before it advanced, though their steps are not returned. -/
def flush (g : StepGenerator α) (time : α) :
    StepGenerator α × Except (GeneratorError α) (StepReport α) :=
  let g := g.refreshWindows
  let stepTime := Scalar.max (time - g.flushDelay) g.lastFlush
  match holdQueues stepTime g.servedQueues g with
  | (g, some e) => (g, .error e)
  | (g, none) =>
    match g.advanceMembers stepTime g.members [] with
    | (members, .error e) => ({ g with members }, .error e)
    | (members, .ok report) =>
      let g := { g with members }
      let g := g.finalizeQueues (stepTime - g.flushDelay) (stepTime - historyTime)
      ({ g with lastFlush := stepTime }, .ok report)

/-- The bound on the number of flushes in a row. -/
def flushLimit : Nat := twoTo 62

/-- Flushes at times `step` apart as long as the time before is earlier than `finish`, which may depend
on the flush delay. The reports are joined; the first failure ends it. -/
def flushUntil (g : StepGenerator α) (time step : α) (finish : StepGenerator α → α) :
    StepGenerator α × Except (GeneratorError α) (StepReport α) :=
  go flushLimit g time []
where
  /-- The flushes that are left, with the steps so far. -/
  go : Nat → StepGenerator α → α → StepReport α →
      StepGenerator α × Except (GeneratorError α) (StepReport α)
    | 0, g, _, report => (g, .ok report)
    | fuel + 1, g, time, report =>
      if time < finish g then
        match g.flush (time + step) with
        | (g, .error e) => (g, .error e)
        | (g, .ok later) => go fuel g (time + step) (report.join later)
      else (g, .ok report)

end StepGenerator

end PrinterMotion
