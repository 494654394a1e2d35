/-
The step generator: all steppers of a machine, the queues their motion comes from, and how far motion
has to be known ahead of the time up to which steps are generated.
-/
import PrinterMotion.Motion.Timing
import PrinterMotion.Shaping.AxisShaper
import PrinterMotion.Stepper.Advance

namespace PrinterMotion

/-- Why a request to change input shaping is refused. -/
inductive RequestFault (α : Type) where
  | toolhead (index : Nat)
  | parameter (fault : ShaperFault α)
deriving Repr

/-- Why the step generator refuses a call. -/
inductive GeneratorError (α : Type) where
  | step (stepper : String) (error : StepError α)
  | unknownStepper (name : String)
  | kinematics (stepper : String) (error : KinematicsError α)
  | shaperConfig (shapers : List String)
  | invalidRequest (fault : RequestFault α)
  | queue (error : QueueError α)
deriving Repr

/-- The wording of a refused request. -/
def RequestFault.message : RequestFault Float → String
  | .toolhead index => s!"Invalid TOOLHEAD index: {index}"
  | .parameter fault => s!"Invalid configuration: {fault.message}"

/-- The wording of a refusal. -/
def GeneratorError.message : GeneratorError Float → String
  | .step stepper error => s!"Stepper '{stepper}': {error.message}"
  | .unknownStepper name => s!"Unknown stepper '{name}'"
  | .kinematics stepper error => s!"Stepper '{stepper}': {error.message}"
  | .shaperConfig shapers =>
    "Failed to configure shaper(s) " ++ ", ".intercalate shapers ++ " with given parameters"
  | .invalidRequest fault => s!"Invalid input shaper request: {fault.message}"
  | .queue error => s!"Motion queue error: {error.message}"

/-- A stepper of the generator, with the scan window it was last known to need. -/
structure Member (α : Type) where
  stepper : Stepper α
  window : α
deriving Repr

/-- The steppers of a machine and the queues of their motion. -/
structure StepGenerator (α : Type) where
  toolhead : Queue α
  /-- Queues other than that of the toolhead, by name. -/
  extras : List (String × Queue α)
  /-- The names of the extra queues with a stepper, which are kept up by flushes. -/
  served : List String
  members : List (Member α)
  /-- How long before the time of a flush step generation ends. -/
  flushDelay : α
  /-- The scan windows in effect; `flushDelay` is the largest of them. -/
  scanTimes : List α
  /-- Steps have been generated up to this time. -/
  lastFlush : α
  activeToolhead : Nat
  activeMode : CarriageMode
deriving Repr

namespace StepGenerator

variable {α : Type} [Scalar α]

/-- The least delay between the planner and step generation. -/
def minFlushDelay : α := 0.001

/-- Seconds for which retired motion is kept. -/
def historyTime : α := 30.0

/-- A generator without steppers and motion. -/
def empty : StepGenerator α :=
  ⟨Queue.empty, [], [], [], minFlushDelay, [], 0.0, 0, .primary⟩

/-! ## Queues -/

/-- A queue by reference; an extra queue that was never named has no motion. -/
def queue (g : StepGenerator α) : QueueRef → Queue α
  | .toolhead => g.toolhead
  | .extra name => (g.extras.lookup name).getD Queue.empty

/-- Replaces the queue with a name, or adds it. -/
def putExtra (name : String) (q : Queue α) : List (String × Queue α) → List (String × Queue α)
  | [] => [(name, q)]
  | (n, old) :: rest => if n = name then (n, q) :: rest else (n, old) :: putExtra name q rest

/-- The generator with one queue replaced. -/
def setQueue (g : StepGenerator α) (ref : QueueRef) (q : Queue α) : StepGenerator α :=
  match ref with
  | .toolhead => { g with toolhead := q }
  | .extra name => { g with extras := putExtra name q g.extras }

/-- The queues that flushes keep up, that of the toolhead first. -/
def servedQueues (g : StepGenerator α) : List QueueRef := .toolhead :: g.served.map .extra

/-! ## Scan windows -/

/-- Puts the window `new` in the place of `old`; zero stands for no window. -/
def replaceScanTime (g : StepGenerator α) (new old : α) : StepGenerator α :=
  let times := if old != (0.0 : α) then eraseFirst old g.scanTimes else g.scanTimes
  let times := if new != (0.0 : α) then times ++ [new] else times
  { g with scanTimes := times, flushDelay := times.foldl Scalar.max minFlushDelay }
where
  /-- Takes the first equal time out of a list. -/
  eraseFirst (t : α) : List α → List α
    | [] => []
    | u :: rest => if u == t then rest else u :: eraseFirst t rest

/-- Brings the scan windows up to date with the models. -/
def refreshWindows (g : StepGenerator α) : StepGenerator α :=
  let changes := g.members.filterMap fun m =>
    let window := m.stepper.model.scanWindow
    if window != m.window then some (window, m.window) else none
  let members := g.members.map fun m => { m with window := m.stepper.model.scanWindow }
  changes.foldl (fun g (new, old) => g.replaceScanTime new old) { g with members }

/-! ## Steppers -/

/-- Adds a stepper. One without a queue takes its motion from the toolhead queue; the extra queue of
any other is kept up from now on. -/
def addStepper (g : StepGenerator α) (s : Stepper α) : StepGenerator α :=
  let ref := s.queue.getD .toolhead
  let served := match ref with
    | .toolhead => g.served
    | .extra name => if g.served.contains name then g.served else g.served ++ [name]
  let window := s.model.scanWindow
  let g := if (0.0 : α) < window then g.replaceScanTime window 0.0 else g
  { g with served, members := g.members ++ [⟨{ s with queue := some ref }, window⟩] }

/-- The first stepper of a name. -/
def stepper? (g : StepGenerator α) (name : String) : Option (Stepper α) :=
  (g.members.find? fun m => m.stepper.name = name).map Member.stepper

/-- Replaces the first stepper of a name. -/
def replaceFirst (name : String) (s : Stepper α) : List (Member α) → List (Member α)
  | [] => []
  | m :: rest =>
    if m.stepper.name = name then { m with stepper := s } :: rest
    else m :: replaceFirst name s rest

/-- The generator with the first stepper of a name replaced. -/
def setStepper (g : StepGenerator α) (name : String) (s : Stepper α) : StepGenerator α :=
  { g with members := replaceFirst name s g.members }

/-- Changes a layer of the model of the first stepper of a name, and then brings the scan windows up to
date. `absent` is the fault of a model without such a layer. -/
def changeModel (g : StepGenerator α) (name : String) (absent : ParameterFault α)
    (change? : Model α → Option (Option (KinematicsError α) × Model α)) :
    StepGenerator α × Option (GeneratorError α) :=
  match g.stepper? name with
  | none => (g, some (.unknownStepper name))
  | some s =>
    match change? s.model with
    | none => (g, some (.kinematics name (.invalidParameter absent)))
    | some (some e, model) => (g.setStepper name { s with model }, some (.kinematics name e))
    | some (none, model) => ((g.setStepper name { s with model }).refreshWindows, none)

/-- Sets the pressure advance of an extruder. -/
def setPressureAdvance (g : StepGenerator α) (name : String) (advance smoothTime : α) :
    StepGenerator α × Option (GeneratorError α) :=
  g.changeModel name .notAnExtruder (Model.setAdvance? advance smoothTime)

/-- Sets the transform of a dual carriage. -/
def setCarriage (g : StepGenerator α) (name : String) (axis : Char) (scale offset : α) :
    StepGenerator α × Option (GeneratorError α) :=
  g.changeModel name .notADualCarriage (Model.setTransform? axis scale offset)

/-! ## Motion -/

/-- The vector from one point to another. -/
def displacement (start finish : Coord α) : Coord α :=
  ⟨finish.x - start.x, finish.y - start.y, finish.z - start.z⟩

/-- Queues a straight toolhead move, and returns the time at which it ends and its timing. -/
def queueMove (g : StepGenerator α) (time : α) (start finish : Coord α) (maxVelocity accel : α) :
    StepGenerator α × Except (GeneratorError α) (α × Timing α) :=
  let d := displacement start finish
  let distance := Scalar.sqrt (d.x * d.x + d.y * d.y + d.z * d.z)
  let timing := Timing.plan distance maxVelocity accel
  if distance == (0.0 : α) then (g, .ok (time, timing))
  else
    let direction : Coord α := ⟨d.x / distance, d.y / distance, d.z / distance⟩
    match g.toolhead.append (timing.along time start direction) with
    | (toolhead, some e) => ({ g with toolhead }, .error (.queue e))
    | (toolhead, none) => ({ g with toolhead }, .ok (time + timing.total, timing))

/-- Queues filament motion alongside a toolhead move: the profile of the move, scaled to the filament
distance. Only forward motion is marked for pressure advance. -/
def queueExtrusion (g : StepGenerator α) (ref : QueueRef) (time : α) (timing : Timing α)
    (start distance : α) : StepGenerator α × Option (GeneratorError α) :=
  if timing.distance == (0.0 : α) || distance == (0.0 : α) then (g, none)
  else
    let ratio := distance / timing.distance
    let advanced : α := if (0.0 : α) < distance then 1.0 else 0.0
    let (q, e) := (g.queue ref).append
      ((timing.scaled ratio).along time ⟨start, 0.0, 0.0⟩ ⟨1.0, advanced, 0.0⟩)
    (g.setQueue ref q, e.map .queue)

end StepGenerator

end PrinterMotion
