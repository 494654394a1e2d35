/-
What building the steppers of an accepted configuration comes to. Each section of a stepper has a sound drive, and
so has each stepper that is built from one a distance that it can go by. Building fails only at the axis token of a
stepper, or at the number of the steppers: all that the models ask for beyond these has been checked. The drive of
the extruder is not among what has been checked.
-/
import PrinterMotion.Config.Machine
import PrinterMotion.Proofs.Config.Steps
import PrinterMotion.Proofs.Elementwise

namespace PrinterMotion

namespace Config

/-! ## What is checked -/

theorem refuse_eq_ok {condition : Bool} {fault : ConfigFault} :
    refuse condition fault = .ok () ↔ condition = false := by
  cases condition <;> simp [refuse]

theorem sectionFor_eq_ok {β : Type} {kinematics : String} {found : Option β} {b : β} :
    sectionFor kinematics found = .ok b ↔ found = some b := by
  cases found <;> simp [sectionFor]

/-- Checks a section if it is there. -/
def ifGiven {β : Type} (found : Option β) (check : β → Except ConfigFault Unit) : Except ConfigFault Unit :=
  match found with
  | some b => check b
  | none => .ok ()

theorem ifGiven_eq_ok {β : Type} {found : Option β} {check : β → Except ConfigFault Unit}
    (h : ifGiven found check = .ok ()) : ∀ b ∈ found, check b = .ok () := by
  rintro b rfl
  exact h

/-- The checks of a configuration stand in a row. -/
theorem validate_eq (c : Config) : c.validate = (do
    refuse (c.printer.maxVelocity ≤ 0.0 || c.printer.maxAccel ≤ 0.0) .printerLimits
    forIn c.steppers () fun (name, s) _ => do
      refuse (s.drive.rotationDistance ≤ 0.0 || s.drive.microsteps == 0 || s.drive.fullSteps == 0) (.stepperRatio name)
      pure (.yield ())
    c.checkKinematics
    ifGiven c.extruder fun e => refuse (e.pressureAdvance < 0.0 || e.smoothTime < 0.0) .pressureAdvance
    ifGiven c.shaper fun s => do
      checkShaperAxis s 'x'
      checkShaperAxis s 'y'
    ifGiven c.dualCarriage c.checkCarriage
    refuse (c.trsync.timeout ≤ 0.0 || c.trsync.singleTimeout ≤ 0.0) .trsyncTimeouts
    refuse (!(0.0 ≤ c.trsync.extendFraction && c.trsync.extendFraction < 1.0)) .extendFraction) := by
  unfold validate
  rcases c with ⟨printer, steppers, delta, rotary, winch, _ | e, _ | s, _ | dc, trsync⟩ <;>
    simp only [ifGiven, bind_assoc] <;> rfl

/-- The kinematics that is named. -/
def family? (c : Config) : Except (KinematicsError Float) Family := Family.ofName? c.printer.kinematics

/-- The section that kinematics with a geometry of its own needs, as it is checked. -/
def Geometry (c : Config) : Family → Prop
  | .cartesian | .coreXY | .coreXZ | .none => True
  | .delta => c.printer.kinematics = "delta" ∧
      ∃ d, c.delta = some d ∧ ¬ d.armLength ≤ d.radius ∧ ¬ d.radius ≤ 0.0
  | .rotaryDelta => c.printer.kinematics = "rotary_delta" ∧
      ∃ r, c.rotaryDelta = some r ∧ ¬ r.upperArm ≤ 0.0 ∧ ¬ r.lowerArm ≤ 0.0
  | .winch => c.printer.kinematics = "winch" ∧ ∃ w, c.winch = some w

/-- What is known of an accepted configuration, as far as steppers are built from it. -/
structure Accepted (c : Config) : Prop where
  drives : ∀ p ∈ c.steppers, ¬ p.2.drive.rotationDistance ≤ 0.0 ∧ p.2.drive.microsteps ≠ 0 ∧ p.2.drive.fullSteps ≠ 0
  geometry : ∃ family, c.family? = .ok family ∧ c.Geometry family
  extruder : ∀ e ∈ c.extruder, ¬ e.pressureAdvance < 0.0 ∧ ¬ e.smoothTime < 0.0
  carriage : ∀ dc ∈ c.dualCarriage, dc.axis = "x" ∨ dc.axis = "y"

theorem geometry_of_check {c : Config} (h : c.checkKinematics = .ok ()) :
    ∃ family, c.family? = .ok family ∧ c.Geometry family := by
  unfold checkKinematics at h
  split at h <;> rename_i hname
  case h_1 => exact ⟨.cartesian, by rw [family?, hname]; rfl, trivial⟩
  case h_2 => exact ⟨.coreXY, by rw [family?, hname]; rfl, trivial⟩
  case h_3 => exact ⟨.coreXZ, by rw [family?, hname]; rfl, trivial⟩
  case h_4 => exact ⟨.none, by rw [family?, hname]; rfl, trivial⟩
  case h_5 =>
    obtain ⟨d, hd, h⟩ := bind_eq_ok.1 h
    refine ⟨.delta, by rw [family?, hname]; rfl, hname, d, sectionFor_eq_ok.1 hd, ?_⟩
    simpa using refuse_eq_ok.1 h
  case h_6 =>
    obtain ⟨r, hr, h⟩ := bind_eq_ok.1 h
    refine ⟨.rotaryDelta, by rw [family?, hname]; rfl, hname, r, sectionFor_eq_ok.1 hr, ?_⟩
    simpa using refuse_eq_ok.1 h
  case h_7 =>
    obtain ⟨w, hw, -⟩ := bind_eq_ok.1 h
    exact ⟨.winch, by rw [family?, hname]; rfl, hname, w, sectionFor_eq_ok.1 hw⟩
  case h_8 => cases h

theorem accepted_of_validate {c : Config} (h : c.validate = .ok ()) : c.Accepted := by
  rw [validate_eq] at h
  obtain ⟨_, -, h⟩ := bind_eq_ok.1 h
  obtain ⟨_, hdrives, h⟩ := bind_eq_ok.1 h
  obtain ⟨_, hgeometry, h⟩ := bind_eq_ok.1 h
  obtain ⟨_, hextruder, h⟩ := bind_eq_ok.1 h
  obtain ⟨_, -, h⟩ := bind_eq_ok.1 h
  obtain ⟨_, hcarriage, -⟩ := bind_eq_ok.1 h
  refine ⟨fun p hp => ?_, geometry_of_check hgeometry, fun e he => ?_, fun dc hdc => ?_⟩
  · simpa [and_assoc] using refuse_eq_ok.1 (forall_of_forIn hdrives p hp)
  · simpa using refuse_eq_ok.1 (ifGiven_eq_ok hextruder e he)
  · obtain ⟨_, haxis, -⟩ := bind_eq_ok.1 (ifGiven_eq_ok hcarriage dc hdc)
    simpa [imp_iff_not_or] using refuse_eq_ok.1 haxis

/-! ## What is built -/

/-- The numbers that steppers are built from are finite. -/
structure Finite (c : Config) : Prop where
  drives : ∀ p ∈ c.steppers, p.2.drive.rotationDistance.isFinite = true
  delta : ∀ d ∈ c.delta, d.radius.isFinite = true ∧ d.armLength.isFinite = true
  rotary : ∀ r ∈ c.rotaryDelta, r.upperArm.isFinite = true ∧ r.lowerArm.isFinite = true
  extruder : ∀ e ∈ c.extruder, e.drive.rotationDistance.isFinite = true ∧ e.pressureAdvance.isFinite = true ∧
    e.smoothTime.isFinite = true

/-- Each configured stepper has a drive with positive settings. -/
def SoundDrives (c : Config) : Prop := ∀ p ∈ c.steppers, p.2.drive.Sound

/-- How many steppers the geometry has places for, where that is fixed. -/
def places? (c : Config) : Option Nat :=
  match c.printer.kinematics with
  | "delta" | "rotary_delta" => some 3
  | "winch" => c.winch.map (·.anchors.length)
  | _ => none

/-- Why the steppers of an accepted configuration may not be built. -/
inductive BuildFault (c : Config) : MachineError → Prop where
  /-- A stepper has no axis token, neither its own nor in its name. -/
  | missing {name : String} {s : StepperSection} (hmem : (name, s) ∈ c.steppers)
      (haxis : s.axis = none) (htoken : axisToken name s = .error (.stepperAxis name)) :
      BuildFault c (.config (.stepperAxis name))
  /-- The kinematics has no use for the token of a stepper. -/
  | unusable {name token : String} {s : StepperSection} {family : Family} {e : KinematicsError Float}
      (hmem : (name, s) ∈ c.steppers) (htoken : axisToken name s = .ok token)
      (hfamily : c.family? = .ok family) (hrefused : Model.ofAxis? family token = .error e)
      (hkind : e = .invalidParameter (.axisToken token) ∨ ∃ letter, e = .invalidAxis letter) :
      BuildFault c (.kinematics e)
  /-- There are more or fewer steppers than places. -/
  | count {wanted : Nat} (hplaces : c.places? = some wanted) (hcount : c.steppers.length ≠ wanted) :
      BuildFault c (.config (.stepperCount c.printer.kinematics wanted c.steppers.length))

/-- A stepper of a configured one, with a distance that its drive can go by. -/
def Driven (c : Config) (s : Stepper Float) : Prop :=
  ∃ p ∈ c.steppers, s.name = p.1 ∧ p.2.drive.Steps s.stepDistance

/-- What building may come to. -/
def Builds (c : Config) : Except MachineError (List (Stepper Float)) → Prop
  | .ok steppers => ∀ s ∈ steppers, c.Driven s
  | .error err => c.BuildFault err

variable {c : Config}

theorem soundDrives (hc : c.Accepted) (hfin : c.Finite) : c.SoundDrives := fun p hp =>
  have ⟨hdist, hmicro, hfull⟩ := hc.drives p hp
  ⟨hfin.drives p hp, Binary64.lt_of_not_le (hfin.drives p hp) rfl hdist, hmicro, hfull⟩

theorem driven_new (hsound : c.SoundDrives) {p : String × StepperSection} (hp : p ∈ c.steppers) (model : Model Float) :
    c.Driven (Stepper.new p.1 p.2.drive.stepDistance model) :=
  ⟨p, hp, rfl, (hsound p hp).steps_stepDistance⟩

theorem driven_withModels (hsound : c.SoundDrives) (models : List (Model Float)) :
    ∀ s ∈ c.withModels models, c.Driven s := by
  intro s hs
  obtain ⟨⟨p, model⟩, hmem, rfl⟩ := List.mem_map.1 hs
  exact driven_new hsound (List.of_mem_zip hmem).1 model

/-- The count is checked before the steppers are built. -/
theorem builds_counted {kinematics : String} (hname : c.printer.kinematics = kinematics) {wanted : Nat}
    (hplaces : c.places? = some wanted) {built : Except MachineError (List (Stepper Float))} (h : c.Builds built) :
    c.Builds (do
      faulty (c.checkCount kinematics wanted)
      built) := by
  unfold checkCount
  split
  · exact h
  · rename_i hcount
    exact hname ▸ .count hplaces hcount

theorem faulty_eq_ok {β : Type} {x : Except ConfigFault β} {b : β} : faulty x = .ok b ↔ x = .ok b := by
  cases x <;> simp [faulty]

theorem faulty_eq_error {β : Type} {x : Except ConfigFault β} {err : MachineError} :
    faulty x = .error err ↔ ∃ fault, x = .error fault ∧ .config fault = err := by
  cases x <;> simp [faulty]

theorem kinematic_eq_error {β : Type} {x : Except (KinematicsError Float) β} {err : MachineError} :
    kinematic x = .error err ↔ ∃ e, x = .error e ∧ .kinematics e = err := by
  cases x <;> simp [kinematic]

theorem axisToken_eq_error {name : String} {s : StepperSection} {fault : ConfigFault}
    (h : axisToken name s = .error fault) : fault = .stepperAxis name ∧ s.axis = none := by
  unfold axisToken at h
  split at h
  · cases h
  · rename_i haxis
    refine ⟨?_, haxis⟩
    split at h
    · split at h <;> cases h
      rfl
    · cases h
      rfl

theorem linear?_eq_error {letter : Char} {e : KinematicsError Float} (h : Model.linear? letter = .error e) :
    e = .invalidAxis letter := by
  unfold Model.linear? at h
  split at h <;> cases h
  rfl

theorem beltSign?_eq_error {letter : Char} {e : KinematicsError Float} (h : Model.beltSign? letter = .error e) :
    e = .invalidAxis letter := by
  unfold Model.beltSign? at h
  split_ifs at h
  cases h
  rfl

/-- One letter is that of an axis; the others are signs of belts. -/
theorem axisOrBelt_eq_error {letter axis : Char} {belt : Bool → Model Float} {e : KinematicsError Float}
    (h : (if letter = axis then Model.linear? letter else (Model.beltSign? letter).map belt) = .error e) :
    e = .invalidAxis letter := by
  split at h
  · exact linear?_eq_error h
  · exact beltSign?_eq_error (map_eq_error h)

/-- A token is refused if it is no single character, or not one that the kinematics knows. -/
theorem ofAxis?_eq_error {family : Family} (hlinear : family ∈ [Family.cartesian, .coreXY, .coreXZ]) {token : String}
    {e : KinematicsError Float} (h : Model.ofAxis? family token = .error e) :
    e = .invalidParameter (.axisToken token) ∨ ∃ letter, e = .invalidAxis letter := by
  rcases bind_eq_error.1 h with hsingle | ⟨letter, -, h⟩
  · unfold singleChar? at hsingle
    split at hsingle <;> cases hsingle
    exact .inl rfl
  · refine .inr ⟨letter, ?_⟩
    simp only [List.mem_cons, List.not_mem_nil, or_false] at hlinear
    rcases hlinear with rfl | rfl | rfl
    · exact linear?_eq_error h
    · exact axisOrBelt_eq_error h
    · exact axisOrBelt_eq_error h

/-- The stepper of a section, where the axis token selects the model. -/
def linearStepper (family : Family) (p : String × StepperSection) : Except MachineError (Stepper Float) := do
  let token ← faulty (axisToken p.1 p.2)
  let model ← kinematic (Model.ofAxis? family token)
  return Stepper.new p.1 p.2.drive.stepDistance model

theorem linearStepper_eq_error {family : Family} (hlinear : family ∈ [Family.cartesian, .coreXY, .coreXZ])
    (hfamily : c.family? = .ok family) {p : String × StepperSection} (hp : p ∈ c.steppers) {err : MachineError}
    (h : linearStepper family p = .error err) : c.BuildFault err := by
  rcases bind_eq_error.1 h with h | ⟨token, htoken, h⟩
  · obtain ⟨fault, htoken, rfl⟩ := faulty_eq_error.1 h
    obtain ⟨rfl, haxis⟩ := axisToken_eq_error htoken
    exact .missing hp haxis htoken
  · rcases bind_eq_error.1 h with h | ⟨model, -, h⟩
    · obtain ⟨e, hrefused, rfl⟩ := kinematic_eq_error.1 h
      exact .unusable hp (faulty_eq_ok.1 htoken) hfamily hrefused (ofAxis?_eq_error hlinear hrefused)
    · cases h

theorem builds_linear (hsound : c.SoundDrives) {family : Family}
    (hlinear : family ∈ [Family.cartesian, .coreXY, .coreXZ]) (hfamily : c.family? = .ok family) :
    c.Builds (c.kinematicSteppers family) := by
  have hbuild : c.kinematicSteppers family = c.steppers.mapM (linearStepper family) := by
    simp only [List.mem_cons, List.not_mem_nil, or_false] at hlinear
    rcases hlinear with rfl | rfl | rfl <;> rfl
  rw [hbuild]
  cases hbuilt : c.steppers.mapM (linearStepper family) with
  | ok steppers =>
    intro s hs
    obtain ⟨p, hp, hs⟩ := exists_of_forall₂ (forall₂_of_mapM hbuilt) s hs
    obtain ⟨token, -, hs⟩ := bind_eq_ok.1 hs
    obtain ⟨model, -, hs⟩ := bind_eq_ok.1 hs
    cases hs
    exact driven_new hsound hp model
  | error err =>
    obtain ⟨p, hp, herr⟩ := exists_of_mapM_error hbuilt
    exact linearStepper_eq_error hlinear hfamily hp herr

/-- Arms that are longer than the radius reach from each tower. -/
theorem exists_ring {radius arm : Float} (hle : ¬ arm ≤ radius) (hpos : 0.0 < arm) (bearings : List Float) :
    ∃ towers, Tower.ring? radius arm bearings = .ok towers := by
  unfold Tower.ring?
  rw [if_neg hle]
  refine exists_mapM fun degrees _ => ?_
  unfold Tower.of?
  rw [if_pos hpos]
  exact ⟨_, rfl⟩

theorem builds_delta (hsound : c.SoundDrives) (hfin : c.Finite)
    (h : c.Geometry .delta) : c.Builds (c.kinematicSteppers .delta) := by
  obtain ⟨hname, d, hd, harm, hradius⟩ := h
  obtain ⟨hradius', harm'⟩ := hfin.delta d hd
  have hpos : 0.0 < d.armLength :=
    Binary64.lt_trans (Binary64.lt_of_not_le hradius' rfl hradius) (Binary64.lt_of_not_le harm' hradius' harm)
  obtain ⟨towers, htowers⟩ := exists_ring harm hpos d.bearings
  have hplaces : c.places? = some 3 := by
    rw [places?, hname]
    rfl
  have hbuild : c.kinematicSteppers .delta = (do
      faulty (c.checkCount "delta" 3)
      let towers ← kinematic (Tower.ring? d.radius d.armLength d.bearings)
      return c.withModels (towers.map .tower)) := by
    rw [kinematicSteppers, hd]
    rfl
  rw [hbuild, htowers]
  exact builds_counted hname hplaces (driven_withModels hsound _)

/-- The stepper of a section with an arm at a shoulder. -/
def shoulderStepper (r : RotaryDeltaSection) (p : (String × StepperSection) × Float) :
    Except MachineError (Stepper Float) := do
  let shoulder ← kinematic (Shoulder.of? r.shoulderRadius r.shoulderHeight (Scalar.radians p.2) r.upperArm r.lowerArm)
  return Stepper.new p.1.1 (p.1.2.drive.stepDistance / p.1.2.drive.rotationDistance * (2.0 * Scalar.pi))
    (.shoulder shoulder)

theorem exists_shoulder {r : RotaryDeltaSection} (hupper : 0.0 < r.upperArm) (hlower : 0.0 < r.lowerArm)
    (p : (String × StepperSection) × Float) : ∃ s, shoulderStepper r p = .ok s := by
  unfold shoulderStepper Shoulder.of?
  rw [if_pos ⟨hupper, hlower⟩]
  exact ⟨_, rfl⟩

theorem builds_rotaryDelta (hsound : c.SoundDrives) (hfin : c.Finite)
    (h : c.Geometry .rotaryDelta) : c.Builds (c.kinematicSteppers .rotaryDelta) := by
  obtain ⟨hname, r, hr, hupper, hlower⟩ := h
  obtain ⟨hupper', hlower'⟩ := hfin.rotary r hr
  have hplaces : c.places? = some 3 := by
    rw [places?, hname]
    rfl
  have hbuild : c.kinematicSteppers .rotaryDelta = (do
      faulty (c.checkCount "rotary_delta" 3)
      (c.steppers.zip r.bearings).mapM (shoulderStepper r)) := by
    rw [kinematicSteppers, hr]
    rfl
  rw [hbuild]
  refine builds_counted hname hplaces ?_
  obtain ⟨steppers, hsteppers⟩ := exists_mapM fun p (_ : p ∈ c.steppers.zip r.bearings) => exists_shoulder
    (Binary64.lt_of_not_le hupper' rfl hupper) (Binary64.lt_of_not_le hlower' rfl hlower) p
  rw [hsteppers]
  intro s hs
  obtain ⟨p, hp, hs⟩ := exists_of_forall₂ (forall₂_of_mapM hsteppers) s hs
  obtain ⟨shoulder, -, hs⟩ := bind_eq_ok.1 hs
  cases hs
  have hmem := (List.of_mem_zip hp).1
  exact ⟨p.1, hmem, rfl, (hsound p.1 hmem).steps_radians⟩

theorem builds_winch (hsound : c.SoundDrives) (h : c.Geometry .winch) : c.Builds (c.kinematicSteppers .winch) := by
  obtain ⟨hname, w, hw⟩ := h
  have hplaces : c.places? = some w.anchors.length := by
    rw [places?, hname, hw]
    rfl
  have hbuild : c.kinematicSteppers .winch = (do
      faulty (c.checkCount "winch" w.anchors.length)
      return c.withModels (w.anchors.map .winch)) := by
    rw [kinematicSteppers, hw]
    rfl
  rw [hbuild]
  exact builds_counted hname hplaces (driven_withModels hsound _)

/-! ## Carriages -/

theorem exists_onCarriage {letter : Char} (hletter : letter = 'x' ∨ letter = 'y') (s : Stepper Float)
    (scale offset : Float) : ∃ model, onCarriage s letter scale offset = .ok { s with model := model } := by
  unfold onCarriage Carriage.setTransform
  rcases hletter with rfl | rfl <;> exact ⟨_, rfl⟩

/-- Puts a stepper on a carriage if that has to do with it. -/
def carry (dc : DualCarriageSection) (letter : Char) (axis : Axis) (s : Stepper Float) :
    Except (KinematicsError Float) (Stepper Float) :=
  if s.name = dc.stepper then onCarriage s letter dc.mode.scale dc.offset
  else if s.model.axes.has axis then onCarriage s letter 1.0 0.0
  else .ok s

theorem exists_carry {letter : Char} (hletter : letter = 'x' ∨ letter = 'y') (dc : DualCarriageSection) (axis : Axis)
    (s : Stepper Float) : ∃ model, carry dc letter axis s = .ok { s with model := model } := by
  unfold carry
  split_ifs
  · exact exists_onCarriage hletter s _ _
  · exact exists_onCarriage hletter s _ _
  · exact ⟨s.model, rfl⟩

/-- Carriages change the models only. -/
theorem exists_withCarriage {dc : DualCarriageSection} (hdc : dc.axis = "x" ∨ dc.axis = "y")
    (steppers : List (Stepper Float)) : ∃ carried, withCarriage dc steppers = .ok carried ∧
      List.Forall₂ (fun s s' => ∃ model, s' = { s with model := model }) steppers carried := by
  obtain ⟨letter, axis, hletter, hsingle, haxis⟩ : ∃ letter axis, (letter = 'x' ∨ letter = 'y') ∧
      (singleChar? dc.axis : Except (KinematicsError Float) Char) = .ok letter ∧ Axis.ofChar? letter = some axis := by
    rcases hdc with h | h <;> rw [h]
    · exact ⟨'x', .x, .inl rfl, rfl, rfl⟩
    · exact ⟨'y', .y, .inr rfl, rfl, rfl⟩
  have hcarry : withCarriage dc steppers = steppers.mapM (carry dc letter axis) := by
    rw [withCarriage, hsingle]
    dsimp only [bind, Except.bind]
    rw [haxis]
    rfl
  rw [hcarry]
  obtain ⟨carried, hcarried⟩ := exists_mapM fun s (_ : s ∈ steppers) =>
    (exists_carry hletter dc axis s).imp' _ fun _ => id
  refine ⟨carried, hcarried, (forall₂_of_mapM hcarried).imp fun s s' hs => ?_⟩
  obtain ⟨model, hmodel⟩ := exists_carry hletter dc axis s
  exact ⟨model, Except.ok.inj (hs.symm.trans hmodel)⟩

theorem builds_kinematicSteppers (hsound : c.SoundDrives) (hfin : c.Finite) {family : Family}
    (hfamily : c.family? = .ok family) (h : c.Geometry family) : c.Builds (c.kinematicSteppers family) := by
  cases family with
  | cartesian => exact builds_linear hsound (by decide) hfamily
  | coreXY => exact builds_linear hsound (by decide) hfamily
  | coreXZ => exact builds_linear hsound (by decide) hfamily
  | delta => exact builds_delta hsound hfin h
  | rotaryDelta => exact builds_rotaryDelta hsound hfin h
  | winch => exact builds_winch hsound h
  | none => exact fun s hs => by cases hs

theorem builds_buildSteppers (hc : c.Accepted) (hfin : c.Finite) : c.Builds c.buildSteppers := by
  obtain ⟨family, hfamily, hgeometry⟩ := hc.geometry
  have hbuilds := builds_kinematicSteppers (soundDrives hc hfin) hfin hfamily hgeometry
  change c.Builds (do
    let family ← kinematic c.family?
    _)
  rw [hfamily]
  change c.Builds (c.kinematicSteppers family >>= _)
  cases hbuilt : c.kinematicSteppers family with
  | error err =>
    rw [hbuilt] at hbuilds
    exact hbuilds
  | ok steppers =>
    rw [hbuilt] at hbuilds
    cases hdc : c.dualCarriage with
    | none => exact hbuilds
    | some dc =>
      obtain ⟨carried, hcarried, hmodels⟩ := exists_withCarriage (hc.carriage dc hdc) steppers
      change c.Builds (kinematic (withCarriage dc steppers))
      rw [hcarried]
      intro s' hs'
      obtain ⟨s, hs, model, rfl⟩ := exists_of_forall₂ hmodels s' hs'
      exact hbuilds s hs

theorem exists_buildExtruder {e : ExtruderSection} (hadvance : ¬ e.pressureAdvance < 0.0)
    (hadvance' : e.pressureAdvance.isFinite = true) (hsmooth : ¬ e.smoothTime < 0.0)
    (hsmooth' : e.smoothTime.isFinite = true) : ∃ s, buildExtruder e = .ok s := by
  have hnonneg : ∀ a : Float, a.isFinite = true → ¬ a < 0.0 → 0.0 ≤ a := fun a ha h =>
    Scalar.Lawful.le_of_not_lt (Binary64.isNumber_of_isFinite ha) Scalar.isNumber_zero h
  unfold buildExtruder PressureAdvance.of?
  rw [if_pos ⟨hnonneg _ hadvance' hadvance, hnonneg _ hsmooth' hsmooth⟩]
  exact ⟨_, rfl⟩

theorem stepDistance_buildExtruder {e : ExtruderSection} {s : Stepper Float} (h : buildExtruder e = .ok s) :
    s.stepDistance = e.drive.stepDistance := by
  obtain ⟨pa, -, hs⟩ := bind_eq_ok.1 h
  cases hs
  rfl

/-- From an accepted configuration each stepper is built from a section and has a distance that its drive can go by,
and nothing fails but axis tokens and the number of steppers. The extruder is always built, but its drive has not
been checked. -/
theorem accepted_builds (hc : c.validate = .ok ()) (hfin : c.Finite) :
    (∀ steppers, c.buildSteppers = .ok steppers → ∀ s ∈ steppers, c.Driven s) ∧
      (∀ err, c.buildSteppers = .error err → c.BuildFault err) ∧
      ∀ e ∈ c.extruder, ∃ s, buildExtruder e = .ok s ∧ (0.0 < e.drive.rotationDistance → e.drive.microsteps ≠ 0 →
        e.drive.fullSteps ≠ 0 → e.drive.Steps s.stepDistance) := by
  have haccepted := accepted_of_validate hc
  have hbuilds := builds_buildSteppers haccepted hfin
  refine ⟨fun steppers hsteppers => ?_, fun err herr => ?_, fun e he => ?_⟩
  · rwa [hsteppers] at hbuilds
  · rwa [herr] at hbuilds
  · obtain ⟨hadvance, hsmooth⟩ := haccepted.extruder e he
    obtain ⟨hdist, hadvance', hsmooth'⟩ := hfin.extruder e he
    obtain ⟨s, hs⟩ := exists_buildExtruder hadvance hadvance' hsmooth hsmooth'
    refine ⟨s, hs, fun hpos hmicro hfull => ?_⟩
    rw [stepDistance_buildExtruder hs]
    exact Drive.Sound.steps_stepDistance ⟨hdist, hpos, hmicro, hfull⟩

/-- A machine with one axis and an extruder. -/
def oneAxis (axis extruder : Drive) : Config :=
  { Config.default with
    steppers := [("stepper_x", ⟨axis, none⟩)]
    extruder := some ⟨extruder, 0.0, defaultSmoothTime⟩ }

theorem finite_oneAxis {axis extruder : Drive} (haxis : axis.rotationDistance.isFinite = true)
    (hextruder : extruder.rotationDistance.isFinite = true) : (oneAxis axis extruder).Finite where
  drives p hp := by
    rw [List.mem_singleton.1 hp]
    exact haxis
  delta d hd := by cases hd
  rotary r hr := by cases hr
  extruder e he := by
    have hzero : (0.0 : Float).isFinite = true := by decide +kernel
    have hsmooth : defaultSmoothTime.isFinite = true := by decide +kernel
    cases he
    exact ⟨hextruder, hzero, hsmooth⟩

theorem validate_of_isOk (h : c.validate.isOk = true) : c.validate = .ok () := by
  cases hc : c.validate with
  | error fault =>
    rw [hc] at h
    cases h
  | ok u => rfl

theorem accepted_builds_oneAxis :
    (oneAxis .default .default).validate = .ok () ∧ (oneAxis .default .default).Finite ∧
      ∃ s, (oneAxis .default .default).buildSteppers = .ok [s] ∧ Drive.default.Steps s.stepDistance := by
  have hc : (oneAxis .default .default).validate = .ok () := validate_of_isOk (by decide +kernel)
  have hfin : (oneAxis .default .default).Finite := finite_oneAxis rfl rfl
  refine ⟨hc, hfin, Stepper.new "stepper_x" Drive.default.stepDistance (.linear .x), rfl, ?_⟩
  obtain ⟨hsteppers, -, -⟩ := accepted_builds hc hfin
  obtain ⟨p, hp, -, hstep⟩ := hsteppers _ rfl _ List.mem_cons_self
  rwa [List.mem_singleton.1 hp] at hstep

/-- An extruder without microsteps is accepted and built, and has no finite distance. -/
theorem not_accepted_builds : ¬ ∀ c : Config, c.validate = .ok () → c.Finite → ∀ e ∈ c.extruder,
    ∃ s, buildExtruder e = .ok s ∧ s.stepDistance.isFinite = true ∧ 0.0 < s.stepDistance := by
  intro h
  obtain ⟨s, hs, hfin, -⟩ := h (oneAxis .default { Drive.default with microsteps := 0 })
    (validate_of_isOk (by decide +kernel)) (finite_oneAxis rfl rfl) _ rfl
  have hdist : ({ Drive.default with microsteps := 0 } : Drive).stepDistance.isFinite = false := by decide +kernel
  rw [stepDistance_buildExtruder hs] at hfin
  exact Bool.false_ne_true (hdist.symm.trans hfin)

end Config

end PrinterMotion
