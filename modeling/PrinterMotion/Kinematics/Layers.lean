/-
Looking through the wrappers of a model: finding and changing the outermost layer of a kind.
-/
import PrinterMotion.Kinematics.Model

namespace PrinterMotion.Model

variable {α β : Type}

/-- Changes the outermost layer that `f` accepts, and returns what `f` returns with it. -/
def change? (f : Model α → Option (β × Model α)) (m : Model α) : Option (β × Model α) :=
  match f m with
  | some r => some r
  | none =>
    match m with
    | dualCarriage c inner => (change? f inner).map fun (b, inner) => (b, dualCarriage c inner)
    | inputShaper s inner => (change? f inner).map fun (b, inner) => (b, inputShaper s inner)
    | _ => none

/-- What `f` says of the outermost layer it accepts. -/
def find? (f : Model α → Option β) (m : Model α) : Option β :=
  (change? (fun m => (f m).map (·, m)) m).map (·.1)

/-- Changes the pulses of the outermost input shaper, given the axes of the model in it. -/
def changeShaper? (f : Shaping α → AxisSet → β × Shaping α) : Model α → Option (β × Model α) :=
  change? fun
    | inputShaper s inner => let (b, s) := f s inner.axes; some (b, inputShaper s inner)
    | _ => none

/-- Changes the transform of the outermost dual carriage, given the axes of the model on it. -/
def changeCarriage? (f : Carriage α → AxisSet → β × Carriage α) : Model α → Option (β × Model α) :=
  change? fun
    | dualCarriage c inner => let (b, c) := f c inner.axes; some (b, dualCarriage c inner)
    | _ => none

/-- Changes the settings of the outermost extruder. -/
def changeExtruder? (f : PressureAdvance α → β × PressureAdvance α) :
    Model α → Option (β × Model α) :=
  change? fun
    | extruder pa => let (b, pa) := f pa; some (b, extruder pa)
    | _ => none

/-- Whether there is an input shaper. -/
def hasShaper : Model α → Bool
  | inputShaper .. => true
  | dualCarriage _ inner => hasShaper inner
  | _ => false

variable [Scalar α]

/-- Sets the transform of the outermost dual carriage; `none` if there is none. -/
def setTransform? (axis : Char) (scale offset : α) (m : Model α) :
    Option (Option (KinematicsError α) × Model α) :=
  m.changeCarriage? fun c axes =>
    match c.setTransform axes axis scale offset with
    | .ok c => (none, c)
    | .error e => (some e, c)

/-- Sets the pulses of an axis in the outermost input shaper; `none` if there is none. -/
def setPulses? (axis : Char) (n : Nat) (amplitudes times : List α) (m : Model α) :
    Option (Option (KinematicsError α) × Model α) :=
  m.changeShaper? fun s axes =>
    let (s, e) := s.setAxis axes axis n amplitudes times
    (e, s)

/-- Sets the pressure advance of the outermost extruder; `none` if there is none. -/
def setAdvance? (advance smoothTime : α) (m : Model α) :
    Option (Option (KinematicsError α) × Model α) :=
  m.changeExtruder? fun pa =>
    match PressureAdvance.of? advance smoothTime with
    | .ok pa => (none, pa)
    | .error e => (some e, pa)

/-- Exchanges the model on the outermost dual carriage for `inner`, returning the one before it. -/
def rebindCarriage? (m inner : Model α) : Option (Model α × Model α) :=
  m.change? fun
    | dualCarriage c old => some (old, dualCarriage (c.rebind inner.axes) inner)
    | _ => none

/-- Exchanges the model in the outermost input shaper for `inner`, returning the one before it, or
refuses `inner`. -/
def rebindShaper? (m inner : Model α) :
    Option (Except (KinematicsError α) (Model α) × Model α) :=
  m.change? fun
    | inputShaper s old =>
      match inner.checkShapeable with
      | .ok _ => some (.ok old, inputShaper (s.rebind inner.axes) inner)
      | .error e => some (.error e, inputShaper s old)
    | _ => none

end PrinterMotion.Model
