/-
Selecting kinematics by name, and the models of the families whose steppers are named by an axis.
-/
import PrinterMotion.Kinematics.Model

namespace PrinterMotion

variable {α : Type}

/-- The family of a configuration name. -/
def Family.ofName? (name : String) : Except (KinematicsError α) Family :=
  match name with
  | "cartesian" => .ok .cartesian
  | "corexy" => .ok .coreXY
  | "corexz" => .ok .coreXZ
  | "delta" => .ok .delta
  | "rotary_delta" => .ok .rotaryDelta
  | "winch" => .ok .winch
  | "none" => .ok .none
  | _ => .error (.invalidParameter (.unknownFamily name))

/-- The only character of a token. -/
def singleChar? (token : String) : Except (KinematicsError α) Char :=
  match token.toList with
  | [c] => .ok c
  | _ => .error (.invalidParameter (.axisToken token))

namespace Model

/-- The model that follows the axis a letter names. -/
def linear? (axis : Char) : Except (KinematicsError α) (Model α) :=
  match Axis.ofChar? axis with
  | some a => .ok (linear a)
  | none => .error (.invalidAxis axis)

/-- Whether a belt token adds the second axis. -/
def beltSign? (token : Char) : Except (KinematicsError α) Bool :=
  if token = '+' then .ok true
  else if token = '-' then .ok false
  else .error (.invalidAxis token)

/-- The model of a stepper of a family, by its axis token: a letter for linear axes, a sign for belts. -/
def ofAxis? (family : Family) (token : String) : Except (KinematicsError α) (Model α) := do
  let c ← singleChar? token
  match family with
  | .cartesian => linear? c
  | .coreXY => if c = 'z' then linear? c else (beltSign? c).map coreXY
  | .coreXZ => if c = 'y' then linear? c else (beltSign? c).map coreXZ
  | family => .error (.invalidParameter (.ownSection family))

end Model

end PrinterMotion
