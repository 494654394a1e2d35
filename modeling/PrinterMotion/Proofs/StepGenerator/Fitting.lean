/-
What set-up calls do to steppers. A call adds a stepper, or it exchanges models and refreshes the windows.
A change of a model goes through to the layer that it is for, and leaves everything as it is if that layer
refuses it.
-/
import PrinterMotion.Proofs.StepGenerator.Calls
import PrinterMotion.StepGenerator.Shaping
import Mathlib.Data.List.Forall2

namespace PrinterMotion

variable {α : Type}

/-! ## Models -/

section Models

/-- What changing a layer is, changing a model is, if wrappers carry it on. -/
theorem Model.change?_keeps {β : Type} {f : Model α → Option (β × Model α)} {R : Model α → β → Model α → Prop}
    (layer : ∀ m b m', f m = some (b, m') → R m b m')
    (carriage : ∀ c inner b inner', R inner b inner' → R (dualCarriage c inner) b (dualCarriage c inner'))
    (shaper : ∀ s inner b inner', R inner b inner' → R (inputShaper s inner) b (inputShaper s inner'))
    (m : Model α) : ∀ b m', m.change? f = some (b, m') → R m b m' := by
  induction m with
  | dualCarriage c inner ih =>
    intro b m' h
    unfold change? at h
    split at h
    · rename_i r hr
      cases h
      exact layer _ _ _ hr
    · obtain ⟨⟨b', inner'⟩, hinner, heq⟩ := Option.map_eq_some_iff.1 h
      cases heq
      exact carriage c inner b inner' (ih b inner' hinner)
  | inputShaper s inner ih =>
    intro b m' h
    unfold change? at h
    split at h
    · rename_i r hr
      cases h
      exact layer _ _ _ hr
    · obtain ⟨⟨b', inner'⟩, hinner, heq⟩ := Option.map_eq_some_iff.1 h
      cases heq
      exact shaper s inner b inner' (ih b inner' hinner)
  | _ =>
    intro b m' h
    unfold change? at h
    split at h
    · rename_i r hr
      cases h
      exact layer _ _ _ hr
    · cases h

/-- A change that leaves a layer as it is when it fails leaves the whole model so. -/
theorem Model.eq_of_change?_error {ε : Type} {f : Model α → Option (Option ε × Model α)}
    (hf : ∀ m e m', f m = some (some e, m') → m' = m) (m : Model α) :
    ∀ m' e, m.change? f = some (some e, m') → m' = m := by
  intro m' e h
  refine change?_keeps (R := fun m b m' => ∀ e, b = some e → m' = m) ?_ ?_ ?_ m _ m' h e rfl
  · rintro m b m' hm e rfl
    exact hf m e m' hm
  · intro c inner b inner' hinner e hb
    rw [hinner e hb]
  · intro s inner b inner' hinner e hb
    rw [hinner e hb]

variable [Scalar α]

theorem Model.eq_of_setAdvance?_error {m m' : Model α} {advance smoothTime : α} {e : KinematicsError α}
    (h : m.setAdvance? advance smoothTime = some (some e, m')) : m' = m := by
  refine eq_of_change?_error (fun m e m' hm => ?_) m m' e h
  cases m <;> try cases hm
  simp only [Option.some.injEq] at hm
  split at hm <;> cases hm
  rfl

theorem Model.eq_of_setTransform?_error {m m' : Model α} {axis : Char} {scale offset : α}
    {e : KinematicsError α} (h : m.setTransform? axis scale offset = some (some e, m')) : m' = m := by
  refine eq_of_change?_error (fun m e m' hm => ?_) m m' e h
  cases m <;> try cases hm
  simp only [Option.some.injEq] at hm
  split at hm <;> cases hm
  rfl

/-- The extruders of the model have settings that were accepted for them. -/
def Model.Built : Model α → Prop
  | extruder pa => pa = .off ∨ ∃ advance smoothTime, PressureAdvance.of? advance smoothTime = .ok pa
  | dualCarriage _ inner | inputShaper _ inner => inner.Built
  | _ => True

/-- A change that keeps a layer as it should be keeps the whole model so. -/
theorem Model.Built.change? {β : Type} {f : Model α → Option (β × Model α)}
    (hf : ∀ m b m', f m = some (b, m') → m.Built → m'.Built) {m m' : Model α} {b : β}
    (h : m.change? f = some (b, m')) : m.Built → m'.Built :=
  change?_keeps (R := fun m _ m' => m.Built → m'.Built) hf (fun _ _ _ _ hinner => hinner)
    (fun _ _ _ _ hinner => hinner) m b m' h

theorem Model.Built.setAdvance? {advance smoothTime : α} {m m' : Model α} {e : Option (KinematicsError α)}
    (h : m.setAdvance? advance smoothTime = some (e, m')) (hm : m.Built) : m'.Built := by
  refine Model.Built.change? (fun m e m' hf hm => ?_) h hm
  cases m with
  | extruder pa =>
    simp only [Option.some.injEq] at hf
    split at hf <;> cases hf
    · rename_i hpa
      exact .inr ⟨advance, smoothTime, hpa⟩
    · exact hm
  | _ => cases hf

theorem Model.Built.setTransform? {axis : Char} {scale offset : α} {m m' : Model α} {e : Option (KinematicsError α)}
    (h : m.setTransform? axis scale offset = some (e, m')) (hm : m.Built) : m'.Built := by
  refine Model.Built.change? (fun m e m' hf hm => ?_) h hm
  cases m <;> cases hf
  exact hm

theorem Model.Built.changeShaper? {β : Type} {f : Shaping α → AxisSet → β × Shaping α} {m m' : Model α} {b : β}
    (h : m.changeShaper? f = some (b, m')) (hm : m.Built) : m'.Built := by
  refine Model.Built.change? (fun m b m' hf hm => ?_) h hm
  cases m <;> cases hf
  exact hm

theorem Model.Built.shaped? {m m' : Model α} (h : m.shaped? = .ok m') (hm : m.Built) : m'.Built := by
  unfold Model.shaped? checkShapeable at h
  split at h <;> cases h
  exact hm

end Models

namespace StepGenerator

/-! ## Steppers with another model -/

/-- The same stepper with another model. -/
def Refitted (m m' : Member α) : Prop := ∃ model, m' = { m with stepper := { m.stepper with model } }

theorem Refitted.refl (m : Member α) : Refitted m m := ⟨m.stepper.model, rfl⟩

theorem setStepper_self {g : StepGenerator α} {name : String} {s : Stepper α} (hs : g.stepper? name = some s) :
    g.setStepper name s = g := by
  have hreplace : ∀ l : List (Member α), (l.find? fun m => m.stepper.name = name).map Member.stepper = some s →
      replaceFirst name s l = l := by
    intro l
    induction l with
    | nil => exact fun _ => rfl
    | cons m rest ih =>
      intro hl
      by_cases hn : m.stepper.name = name
      · rw [List.find?_cons_of_pos (by simpa using hn)] at hl
        rw [replaceFirst, if_pos hn, ← Option.some.inj hl]
      · rw [List.find?_cons_of_neg (by simpa using hn)] at hl
        rw [replaceFirst, if_neg hn, ih hl]
  rw [setStepper, hreplace _ hs]

theorem refitted_replaceFirst {name : String} {s : Stepper α} (model : Model α) : ∀ {l : List (Member α)},
    (l.find? fun m => m.stepper.name = name).map Member.stepper = some s →
      List.Forall₂ Refitted l (replaceFirst name { s with model } l)
  | [], _ => .nil
  | m :: rest, hl => by
    have hsame : ∀ l : List (Member α), List.Forall₂ Refitted l l := fun l => List.forall₂_same.2 fun m _ => .refl m
    by_cases hn : m.stepper.name = name
    · rw [List.find?_cons_of_pos (by simpa using hn)] at hl
      rw [replaceFirst, if_pos hn, ← Option.some.inj hl]
      exact .cons ⟨model, rfl⟩ (hsame rest)
    · rw [List.find?_cons_of_neg (by simpa using hn)] at hl
      rw [replaceFirst, if_neg hn]
      exact .cons (.refl m) (refitted_replaceFirst model hl)

theorem windows_of_refitted {l l' : List (Member α)} (h : List.Forall₂ Refitted l l') :
    l'.map (·.window) = l.map (·.window) := by
  induction h with
  | nil => rfl
  | cons hm _ ih =>
    obtain ⟨model, rfl⟩ := hm
    rw [List.map_cons, List.map_cons, ih]

variable [Scalar α]

theorem refitted_shapeMember (shapers : List (AxisShaper α)) (failed : List String) (m : Member α) :
    Refitted m (shapeMember shapers failed m).2.2 := by
  unfold shapeMember
  split
  · exact .refl m
  · dsimp only
    split
    · exact .refl m
    · split
      · exact .refl m
      · exact ⟨_, rfl⟩

theorem refitted_shapeMembers : ∀ (l : List (Member α)) (shapers : List (AxisShaper α)) (failed : List String),
    List.Forall₂ Refitted l (shapeMembers l shapers failed).1
  | [], _, _ => .nil
  | m :: rest, shapers, failed =>
    .cons (refitted_shapeMember shapers failed m) (refitted_shapeMembers rest _ _)

theorem built_replaceFirst {name : String} {s : Stepper α} (hs : s.model.Built) : ∀ {l : List (Member α)},
    (∀ m ∈ l, m.stepper.model.Built) → ∀ m ∈ replaceFirst name s l, m.stepper.model.Built
  | m :: rest, hl, m', hm' => by
    rw [replaceFirst] at hm'
    split at hm' <;> rcases List.mem_cons.1 hm' with rfl | hm'
    · exact hs
    · exact hl m' (List.mem_cons_of_mem _ hm')
    · exact hl m' List.mem_cons_self
    · exact built_replaceFirst hs (fun m hm => hl m (List.mem_cons_of_mem _ hm)) m' hm'

theorem built_shapeMember (shapers : List (AxisShaper α)) (failed : List String) {m : Member α}
    (hm : m.stepper.model.Built) : (shapeMember shapers failed m).2.2.stepper.model.Built := by
  unfold shapeMember
  split
  · exact hm
  · dsimp only
    split
    · exact hm
    · rename_i model hmodel
      have hmodel : model.Built := by
        split at hmodel
        · cases hmodel
          exact hm
        · exact Model.Built.shaped? hmodel hm
      split
      · exact hm
      · rename_i hchange
        exact Model.Built.changeShaper? hchange hmodel

theorem built_shapeMembers : ∀ {l : List (Member α)} (shapers : List (AxisShaper α)) (failed : List String),
    (∀ m ∈ l, m.stepper.model.Built) → ∀ m ∈ (shapeMembers l shapers failed).1, m.stepper.model.Built
  | m :: rest, shapers, failed, hl, m', hm' => by
    rcases List.mem_cons.1 hm' with rfl | hm'
    · exact built_shapeMember shapers failed (hl m List.mem_cons_self)
    · exact built_shapeMembers _ _ (fun m hm => hl m (List.mem_cons_of_mem _ hm)) m' hm'

/-! ## Steppers that are added -/

theorem addStepper_members (g : StepGenerator α) (s : Stepper α) : (g.addStepper s).members =
    g.members ++ [⟨{ s with queue := some (s.queue.getD .toolhead) }, s.model.scanWindow⟩] := by
  simp only [addStepper]
  split <;> rfl

/-- The queue of a stepper that is added is kept up from then on, as all queues before. -/
theorem addStepper_served (g : StepGenerator α) (s : Stepper α) :
    (∀ ref ∈ g.servedQueues, ref ∈ (g.addStepper s).servedQueues) ∧
      s.queue.getD .toolhead ∈ (g.addStepper s).servedQueues := by
  simp only [addStepper, servedQueues]
  cases s.queue.getD .toolhead with
  | toolhead => exact ⟨fun _ hr => hr, List.mem_cons_self⟩
  | extra name =>
    dsimp only
    split
    · rename_i hc
      exact ⟨fun _ hr => hr, List.mem_cons_of_mem _ (List.mem_map_of_mem (by simpa using hc))⟩
    · rw [List.map_append, ← List.cons_append]
      exact ⟨fun _ hr => List.mem_append_left _ hr, List.mem_append_right _ (by simp)⟩

theorem served_addStepper {g : StepGenerator α} (s : Stepper α)
    (h : ∀ m ∈ g.members, ∃ ref ∈ g.servedQueues, m.stepper.queue = some ref) :
    ∀ m ∈ (g.addStepper s).members, ∃ ref ∈ (g.addStepper s).servedQueues, m.stepper.queue = some ref := by
  intro m hm
  obtain ⟨hold, hnew⟩ := addStepper_served g s
  rw [addStepper_members] at hm
  rcases List.mem_append.1 hm with hm | hm
  · obtain ⟨ref, hmem, href⟩ := h m hm
    exact ⟨ref, hold ref hmem, href⟩
  · rw [List.mem_singleton.1 hm]
    exact ⟨_, hnew, rfl⟩

/-! ## Calls -/

/-- What a call does that adds no stepper: nothing, or it exchanges models and refreshes the windows. -/
inductive Fitted (g : StepGenerator α) : StepGenerator α → Prop where
  | same : Fitted g g
  | refreshed {toolhead : Nat} {mode : CarriageMode} {members : List (Member α)}
      (models : List.Forall₂ Refitted g.members members)
      (built : (∀ m ∈ g.members, m.stepper.model.Built) → ∀ m ∈ members, m.stepper.model.Built) :
      Fitted g ({ g with activeToolhead := toolhead, activeMode := mode, members } : StepGenerator α).refreshWindows

variable (g : StepGenerator α)

theorem fitted_changeModel (name : String) (absent : ParameterFault α)
    {change? : Model α → Option (Option (KinematicsError α) × Model α)}
    (hc : ∀ m m' e, change? m = some (some e, m') → m' = m)
    (hbuilt : ∀ m m' e, change? m = some (e, m') → m.Built → m'.Built) :
    Fitted g (g.changeModel name absent change?).1 := by
  unfold changeModel
  split
  · exact .same
  · rename_i s hs
    split
    · exact .same
    · rename_i e model hmodel
      rw [hc _ _ _ hmodel]
      exact (setStepper_self hs).symm ▸ .same
    · rename_i model hmodel
      refine .refreshed (refitted_replaceFirst model hs) fun h => built_replaceFirst ?_ h
      obtain ⟨m, hfind, rfl⟩ := Option.map_eq_some_iff.1 hs
      exact hbuilt _ _ _ hmodel (h m (List.mem_of_find?_eq_some hfind))

theorem fitted_setPressureAdvance (name : String) (advance smoothTime : α) :
    Fitted g (g.setPressureAdvance name advance smoothTime).1 :=
  fitted_changeModel g name _ (fun _ _ _ hm => Model.eq_of_setAdvance?_error hm) fun _ _ _ hm =>
    Model.Built.setAdvance? hm

theorem fitted_setCarriage (name : String) (axis : Char) (scale offset : α) :
    Fitted g (g.setCarriage name axis scale offset).1 :=
  fitted_changeModel g name _ (fun _ _ _ hm => Model.eq_of_setTransform?_error hm) fun _ _ _ hm =>
    Model.Built.setTransform? hm

theorem fitted_changeMode (shapers : List (AxisShaper α)) (toolhead : Nat) (mode : CarriageMode) :
    Fitted g (g.changeMode shapers toolhead mode).1 :=
  .refreshed (refitted_shapeMembers g.members _ []) (built_shapeMembers _ [])

theorem fitted_configureShaping (shapers : List (AxisShaper α)) : Fitted g (g.configureShaping shapers).1 :=
  .refreshed (refitted_shapeMembers g.members shapers []) (built_shapeMembers shapers [])

theorem fitted_requestShaping (shapers : List (AxisShaper α)) (r : ShaperRequest α) :
    Fitted g (g.requestShaping shapers r).1 := by
  unfold requestShaping
  split
  · exact .same
  · split
    · exact .same
    · exact fitted_configureShaping g _

/-- A call that adds a stepper or changes models. -/
inductive Setup (α : Type) where
  | addStepper (s : Stepper α)
  | setPressureAdvance (name : String) (advance smoothTime : α)
  | setCarriage (name : String) (axis : Char) (scale offset : α)
  | configureShaping (shapers : List (AxisShaper α))
  | changeMode (shapers : List (AxisShaper α)) (toolhead : Nat) (mode : CarriageMode)
  | requestShaping (shapers : List (AxisShaper α)) (r : ShaperRequest α)

/-- The generator after a set-up call, whether it is refused or not. -/
def prepare (g : StepGenerator α) : Setup α → StepGenerator α
  | .addStepper s => g.addStepper s
  | .setPressureAdvance name advance smoothTime => (g.setPressureAdvance name advance smoothTime).1
  | .setCarriage name axis scale offset => (g.setCarriage name axis scale offset).1
  | .configureShaping shapers => (g.configureShaping shapers).1
  | .changeMode shapers toolhead mode => (g.changeMode shapers toolhead mode).1
  | .requestShaping shapers r => (g.requestShaping shapers r).1

/-- The stepper that a set-up call adds. -/
def Setup.added? : Setup α → Option (Stepper α)
  | addStepper s => some s
  | _ => none

/-- A set-up call adds a stepper or exchanges models. -/
theorem prepare_cases (g : StepGenerator α) (c : Setup α) :
    (∃ s, c = .addStepper s) ∨ c.added? = none ∧ Fitted g (g.prepare c) := by
  cases c with
  | addStepper s => exact .inl ⟨s, rfl⟩
  | setPressureAdvance => exact .inr ⟨rfl, fitted_setPressureAdvance g ..⟩
  | setCarriage => exact .inr ⟨rfl, fitted_setCarriage g ..⟩
  | configureShaping => exact .inr ⟨rfl, fitted_configureShaping g _⟩
  | changeMode => exact .inr ⟨rfl, fitted_changeMode g ..⟩
  | requestShaping => exact .inr ⟨rfl, fitted_requestShaping g ..⟩

end StepGenerator

end PrinterMotion
