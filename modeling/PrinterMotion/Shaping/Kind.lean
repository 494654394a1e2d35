/-
The supported input shapers: for each kind, the amplitudes and times of its impulses when it is tuned to
a frequency and a damping ratio.
-/
import PrinterMotion.Kinematics.Pulses
import PrinterMotion.Text.Blank

namespace PrinterMotion

/-- A family of input shapers. -/
inductive ShaperKind where
  | zv
  | mzv
  | zvd
  | ei
  | twoHumpEi
  | threeHumpEi
deriving Repr, DecidableEq

/-- Why shaper parameters are refused. -/
inductive ShaperFault (α : Type) where
  | frequency (freq : α)
  | damping (ratio : α)
  | unsupportedAxis (axis : Char)
  | noKind (axis : Char)
  | unknownKind (name : String)
deriving Repr

/-- The wording of refused shaper parameters. -/
def ShaperFault.message : ShaperFault Float → String
  | .frequency freq => s!"Frequency must be non-negative: {Decimal.plain freq}"
  | .damping ratio => s!"Damping ratio must be between 0.0 and 1.0: {Decimal.plain ratio}"
  | .unsupportedAxis axis => s!"Input shaping is only supported on x and y, not '{axis}'"
  | .noKind axis => s!"No shaper type given for axis '{axis}'"
  | .unknownKind name => s!"Unsupported shaper type: {name}"

namespace ShaperKind

/-- The name of the kind. -/
def name : ShaperKind → String
  | zv => "zv"
  | mzv => "mzv"
  | zvd => "zvd"
  | ei => "ei"
  | twoHumpEi => "2hump_ei"
  | threeHumpEi => "3hump_ei"

/-- The kind that a name stands for, in any case of ASCII letters. -/
def ofName? {α : Type} (text : String) : Except (ShaperFault α) ShaperKind :=
  match Text.lowerAscii text with
  | "zv" => .ok zv
  | "mzv" => .ok mzv
  | "zvd" => .ok zvd
  | "ei" => .ok ei
  | "2hump_ei" => .ok twoHumpEi
  | "3hump_ei" => .ok threeHumpEi
  | other => .error (.unknownKind other)

/-- The vibration that the tolerant kinds leave, as a divisor. -/
def vibrationReduction {α : Type} [Scalar α] : α := 20.0

/-- Amplitudes and times of the shaper tuned to `freq` and `damping`. -/
def impulses {α : Type} [Scalar α] (kind : ShaperKind) (freq damping : α) : List α × List α :=
  let df := Scalar.sqrt (1.0 - damping * damping)
  let period := 1.0 / (freq * df)
  let tolerance := 1.0 / vibrationReduction
  let k := Scalar.exp (-damping * Scalar.pi / df)
  match kind with
  | zv => ([1.0, k], [0.0, 0.5 * period])
  | mzv =>
    let k := Scalar.exp (-0.75 * damping * Scalar.pi / df)
    let a1 := 1.0 - 1.0 / Scalar.sqrt 2.0
    let a2 := (Scalar.sqrt 2.0 - 1.0) * k
    let a3 := a1 * k * k
    ([a1, a2, a3], [0.0, 0.375 * period, 0.75 * period])
  | zvd => ([1.0, 2.0 * k, k * k], [0.0, 0.5 * period, period])
  | ei =>
    let a1 := 0.25 * (1.0 + tolerance)
    let a2 := 0.5 * (1.0 - tolerance) * k
    let a3 := a1 * k * k
    ([a1, a2, a3], [0.0, 0.5 * period, period])
  | twoHumpEi =>
    let v2 := tolerance * tolerance
    let x := Scalar.pow (v2 * (Scalar.sqrt (1.0 - v2) + 1.0)) (1.0 / 3.0)
    let a1 := (3.0 * x * x + 2.0 * x + 3.0 * v2) / (16.0 * x)
    let a2 := (0.5 - a1) * k
    let a3 := a2 * k
    let a4 := a1 * k * k * k
    ([a1, a2, a3, a4], [0.0, 0.5 * period, period, 1.5 * period])
  | threeHumpEi =>
    let k2 := k * k
    let a1 := 0.0625 * (1.0 + 3.0 * tolerance +
      2.0 * Scalar.sqrt (2.0 * (tolerance + 1.0) * tolerance))
    let a2 := 0.25 * (1.0 - tolerance) * k
    let a3 := (0.5 * (1.0 + tolerance) - 2.0 * a1) * k2
    let a4 := a2 * k2
    let a5 := a1 * k2 * k2
    ([a1, a2, a3, a4, a5], [0.0, 0.5 * period, period, 1.5 * period, 2.0 * period])

end ShaperKind

end PrinterMotion
