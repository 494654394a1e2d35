/-
Shaper settings of one axis. Each parameter has one entry, or one per toolhead, or four: for the two
toolheads on their own, for copy mode and for mirror mode. The entries in use follow the active
toolhead and the carriage mode. Shaping can be switched off and on again; what is selected while it is
off takes effect when it is switched on.
-/
import PrinterMotion.Kinematics.Model
import PrinterMotion.Shaping.Kind
import PrinterMotion.Shaping.Mode

namespace PrinterMotion

variable {α : Type}

/-- One or more entries. -/
structure Entries (β : Type) where
  first : β
  others : List β
deriving Repr

namespace Entries

variable {β : Type}

/-- All entries. -/
def toList (e : Entries β) : List β := e.first :: e.others

/-- The number of entries. -/
def size (e : Entries β) : Nat := e.others.length + 1

/-- The entries of a list, or the given one if the list is empty. -/
def ofListOr (fallback : β) : List β → Entries β
  | [] => ⟨fallback, []⟩
  | b :: rest => ⟨b, rest⟩

/-- The entry with an index, or the last one when there are not that many. -/
def pick (e : Entries β) (i : Nat) : β := (e.toList[i]?).getD (e.toList.getLast (by simp [toList]))

end Entries

/-- The damping ratio used when none is configured. -/
def defaultDamping [Scalar α] : α := 0.1

/-- The parameters of a shaper. -/
structure ShaperParams (α : Type) where
  kind : ShaperKind
  freq : α
  damping : α
deriving Repr

/-- A change of shaper parameters; what is not given stays. -/
structure ShaperUpdate (α : Type) where
  kind : Option ShaperKind
  freq : Option α
  damping : Option α
deriving Repr

/-- A change of the parameters of both axes. A toolhead or a mode selects the configured entries before
the changes of each axis are made. -/
structure ShaperRequest (α : Type) where
  toolhead : Option Nat
  mode : Option CarriageMode
  /-- The kind for both axes, over that of an axis. -/
  kind : Option ShaperKind
  x : ShaperUpdate α
  y : ShaperUpdate α
deriving Repr

/-- The change that a request asks for on an axis. -/
def ShaperRequest.axisUpdate (r : ShaperRequest α) (axis : Char) : ShaperUpdate α :=
  let u := if axis = 'y' then r.y else r.x
  { u with kind := r.kind.or u.kind }

/-- Shaper settings of one axis. -/
structure AxisShaper (α : Type) where
  axis : Char
  kinds : Entries ShaperKind
  freqs : Entries α
  dampings : Entries α
  toolhead : Nat
  mode : CarriageMode
  params : ShaperParams α
  /-- Parameters put aside while shaping is off. -/
  saved : Option (ShaperParams α)
deriving Repr

variable [Scalar α]

namespace ShaperParams

/-- Amplitudes and times; frequency zero means no shaping. -/
def impulses (p : ShaperParams α) : List α × List α :=
  if p.freq == (0.0 : α) then ([], []) else p.kind.impulses p.freq p.damping

end ShaperParams

/-- Frequencies are not negative. -/
def checkFreq (freq : α) : Except (ShaperFault α) Unit :=
  if (0.0 : α) ≤ freq then .ok () else .error (.frequency freq)

/-- Damping ratios lie between zero and one. -/
def checkDamping (ratio : α) : Except (ShaperFault α) Unit :=
  if (0.0 : α) ≤ ratio ∧ ratio ≤ (1.0 : α) then .ok () else .error (.damping ratio)

/-- Checks the parameters that an update gives. -/
def ShaperUpdate.check (u : ShaperUpdate α) : Except (ShaperFault α) Unit := do
  if let some freq := u.freq then checkFreq freq
  if let some ratio := u.damping then checkDamping ratio

namespace AxisShaper

/-- Settings from lists of entries. Without frequencies the axis is not shaped, and without damping
ratios the default one is used. -/
def ofEntries? (axis : Char) (kinds : List ShaperKind) (freqs dampings : List α) :
    Except (ShaperFault α) (AxisShaper α) :=
  if axis ≠ 'x' ∧ axis ≠ 'y' then .error (.unsupportedAxis axis)
  else
    match kinds with
    | [] => .error (.noKind axis)
    | kind :: otherKinds => do
      let freqs := Entries.ofListOr 0.0 freqs
      let dampings := Entries.ofListOr defaultDamping dampings
      freqs.toList.forM checkFreq
      dampings.toList.forM checkDamping
      return {
        axis, kinds := ⟨kind, otherKinds⟩, freqs, dampings, toolhead := 0, mode := .primary
        params := ⟨kind, freqs.first, dampings.first⟩, saved := none }

/-- The name of the shaper in reports. -/
def name (s : AxisShaper α) : String := s!"shaper_{s.axis}"

/-- The index of the entries in use, by the number of shaper kinds. -/
def entryIndex (s : AxisShaper α) : Nat :=
  match s.kinds.size, s.mode with
  | 2, _ => s.toolhead
  | 4, .primary => s.toolhead
  | 4, mode => mode.index + 1
  | _, _ => 0

/-- Selects the entries for a toolhead and a mode. While shaping is off they are put aside. -/
def select (s : AxisShaper α) (toolhead : Nat) (mode : CarriageMode) : AxisShaper α :=
  let s := { s with toolhead, mode }
  let i := s.entryIndex
  let params : ShaperParams α := ⟨s.kinds.pick i, s.freqs.pick i, s.dampings.pick i⟩
  match s.saved with
  | some _ => { s with saved := some params }
  | none => { s with params }

/-- Changes parameters. They replace anything put aside, so shaping is on again. -/
def update (s : AxisShaper α) (u : ShaperUpdate α) : Except (ShaperFault α) (AxisShaper α) := do
  u.check
  let base := s.saved.getD s.params
  let params : ShaperParams α :=
    ⟨u.kind.getD base.kind, u.freq.getD base.freq, u.damping.getD base.damping⟩
  return { s with params, saved := none }

/-- Whether the axis is shaped. -/
def isShaping (s : AxisShaper α) : Bool := s.params.freq != (0.0 : α)

/-- The impulses in use; none while shaping is off. -/
def impulses (s : AxisShaper α) : List α × List α := s.params.impulses

/-- Switches shaping off, putting the parameters aside. -/
def disable (s : AxisShaper α) : AxisShaper α :=
  let saved := if s.saved.isNone && s.isShaping then some s.params else s.saved
  { s with saved, params := { s.params with freq := 0.0 } }

/-- Switches shaping on with the parameters put aside. -/
def enable (s : AxisShaper α) : AxisShaper α :=
  match s.saved with
  | some params => { s with params, saved := none }
  | none => s

/-- Puts the impulses into the shaping of a model with the given axes. If they are refused, shaping is
switched off and the axis cleared. -/
def applyTo (s : AxisShaper α) (shaping : Shaping α) (axes : AxisSet) :
    AxisShaper α × Shaping α × Option (KinematicsError α) :=
  let set (s : AxisShaper α) (shaping : Shaping α) : Shaping α × Option (KinematicsError α) :=
    let (amplitudes, times) := s.impulses
    shaping.setAxis axes s.axis amplitudes.length amplitudes times
  match set s shaping with
  | (shaping, none) => (s, shaping, none)
  | (shaping, some e) =>
    let s := s.disable
    (s, (set s shaping).1, some e)

/-- A line with the kind, the frequency and the damping ratio in use. -/
def report (s : AxisShaper Float) : String :=
  s!"shaper_type_{s.axis}:{s.params.kind.name} shaper_freq_{s.axis}:{Decimal.fixed 3 s.params.freq} " ++
    s!"damping_ratio_{s.axis}:{Decimal.fixed 6 s.params.damping}"

end AxisShaper

end PrinterMotion
