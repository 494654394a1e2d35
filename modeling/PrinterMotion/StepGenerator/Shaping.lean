/-
Input shaping of the toolhead steppers: putting shaper parameters into the models, following the mode of
a dual carriage, and changing parameters while the machine runs.
-/
import PrinterMotion.StepGenerator.Basic

namespace PrinterMotion.StepGenerator

variable {α : Type} [Scalar α]

/-- Puts the impulses of shapers into a shaping, skipping shapers that have failed before. Returns the
shapers, the names of all that have failed, and the shaping. -/
def applyShapers (axes : AxisSet) :
    List (AxisShaper α) → (failed : List String) → Shaping α →
      List (AxisShaper α) × List String × Shaping α
  | [], failed, shaping => ([], failed, shaping)
  | s :: rest, failed, shaping =>
    if failed.contains s.name then
      let (rest, failed, shaping) := applyShapers axes rest failed shaping
      (s :: rest, failed, shaping)
    else
      let (applied, shaping, error) := s.applyTo shaping axes
      let failed := if error.isSome then failed ++ [s.name] else failed
      let (rest, failed, shaping) := applyShapers axes rest failed shaping
      (applied :: rest, failed, shaping)

/-- Shapes one stepper of the toolhead queue. A model without input shaper gets one if it moves along
one of the first two axes, and is left alone otherwise. -/
def shapeMember (shapers : List (AxisShaper α)) (failed : List String) (m : Member α) :
    List (AxisShaper α) × List String × Member α :=
  if m.stepper.queue ≠ some .toolhead then (shapers, failed, m)
  else
    let model := m.stepper.model
    let wrapped := if model.hasShaper then .ok model else model.shaped?
    match wrapped with
    | .error _ => (shapers, failed, m)
    | .ok model =>
      let changed := model.changeShaper? fun shaping axes =>
        let (shapers, failed, shaping) := applyShapers axes shapers failed shaping
        ((shapers, failed), shaping)
      match changed with
      | none => (shapers, failed, m)
      | some ((shapers, failed), model) =>
        (shapers, failed, { m with stepper := { m.stepper with model } })

/-- Shapes the steppers one after the other. -/
def shapeMembers :
    List (Member α) → List (AxisShaper α) → (failed : List String) →
      List (Member α) × List (AxisShaper α) × List String
  | [], shapers, failed => ([], shapers, failed)
  | m :: rest, shapers, failed =>
    let (shapers, failed, m) := shapeMember shapers failed m
    let (rest, shapers, failed) := shapeMembers rest shapers failed
    (m :: rest, shapers, failed)

/-- Puts the parameters of the shapers into all toolhead steppers. A shaper whose parameters are refused
is switched off and named in the error. -/
def configureShaping (g : StepGenerator α) (shapers : List (AxisShaper α)) :
    StepGenerator α × List (AxisShaper α) × Option (GeneratorError α) :=
  let (members, shapers, failed) := shapeMembers g.members shapers []
  let g := { g with members }.refreshWindows
  (g, shapers, if failed.isEmpty then none else some (.shaperConfig failed))

/-- Follows the dual carriage to another toolhead and mode. -/
def changeMode (g : StepGenerator α) (shapers : List (AxisShaper α)) (toolhead : Nat)
    (mode : CarriageMode) : StepGenerator α × List (AxisShaper α) × Option (GeneratorError α) :=
  let g := { g with activeToolhead := toolhead, activeMode := mode }
  g.configureShaping (shapers.map fun s => s.select toolhead mode)

/-- The toolhead and mode that a request selects, if it names one of them; the other is the active one. -/
def selection (g : StepGenerator α) (r : ShaperRequest α) :
    Except (RequestFault α) (Option (Nat × CarriageMode)) :=
  if r.toolhead.isSome || r.mode.isSome then
    let toolhead := r.toolhead.getD g.activeToolhead
    if 1 < toolhead then .error (.toolhead toolhead)
    else .ok (some (toolhead, r.mode.getD g.activeMode))
  else .ok none

/-- The shapers as a request changes them. -/
def requested (shapers : List (AxisShaper α)) (selected : Option (Nat × CarriageMode))
    (r : ShaperRequest α) : Except (ShaperFault α) (List (AxisShaper α)) := do
  shapers.forM fun s => (r.axisUpdate s.axis).check
  shapers.mapM fun s =>
    let s := match selected with
      | some (toolhead, mode) => s.select toolhead mode
      | none => s
    s.update (r.axisUpdate s.axis)

/-- Changes shaper parameters. An invalid request changes nothing. -/
def requestShaping (g : StepGenerator α) (shapers : List (AxisShaper α)) (r : ShaperRequest α) :
    StepGenerator α × List (AxisShaper α) × Option (GeneratorError α) :=
  match g.selection r with
  | .error fault => (g, shapers, some (.invalidRequest fault))
  | .ok selected =>
    match requested shapers selected r with
    | .error fault => (g, shapers, some (.invalidRequest (.parameter fault)))
    | .ok shapers => g.configureShaping shapers

/-- The active toolhead and mode, and one line per shaper. -/
def report (g : StepGenerator Float) (shapers : List (AxisShaper Float)) : List String :=
  s!"Active toolhead: {g.activeToolhead}, Mode: {g.activeMode.name}" :: shapers.map AxisShaper.report

end PrinterMotion.StepGenerator
