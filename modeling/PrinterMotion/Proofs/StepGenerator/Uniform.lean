/-
Shaping is the same for all steppers of the toolhead. Whatever shaping calls and carriage transforms came
before, after a shaping call that succeeds each of these steppers that moves along one of the first two axes
has one input shaper, and the pulses in it are those of the shapers that the call leaves. Steppers of other
queues are as the carriage transforms alone would have left them. Configuring the shapers once more changes
nothing.
-/
import PrinterMotion.Proofs.Kinematics.Carried
import PrinterMotion.Proofs.StepGenerator.Settled
import PrinterMotion.Proofs.StepGenerator.Windows

namespace PrinterMotion.StepGenerator

variable {α : Type} [Scalar α]

/-! ## Calls -/

/-- A call that puts shapers into the models of the toolhead. -/
inductive ShapingCall (α : Type) where
  | configure
  | changeMode (toolhead : Nat) (mode : CarriageMode)
  | request (r : ShaperRequest α)

/-- The generator and the shapers after a shaping call, and why it was refused. -/
def shape (g : StepGenerator α) (shapers : List (AxisShaper α)) :
    ShapingCall α → StepGenerator α × List (AxisShaper α) × Option (GeneratorError α)
  | .configure => g.configureShaping shapers
  | .changeMode toolhead mode => g.changeMode shapers toolhead mode
  | .request r => g.requestShaping shapers r

omit [Scalar α] in
theorem axis_select (a : AxisShaper α) (toolhead : Nat) (mode : CarriageMode) :
    (a.select toolhead mode).axis = a.axis := by
  unfold AxisShaper.select
  dsimp only
  split <;> rfl

theorem axis_update {a b : AxisShaper α} {u : ShaperUpdate α} (h : a.update u = .ok b) : b.axis = a.axis := by
  unfold AxisShaper.update at h
  cases hc : u.check with
  | error e =>
    rw [hc] at h
    cases h
  | ok _ =>
    rw [hc] at h
    cases h
    rfl

/-- The shaper with the entries for a toolhead and a mode, if a request selects them. -/
def selectedBy (selected : Option (Nat × CarriageMode)) (s : AxisShaper α) : AxisShaper α :=
  match selected with
  | some (toolhead, mode) => s.select toolhead mode
  | none => s

omit [Scalar α] in
theorem axis_selectedBy (selected : Option (Nat × CarriageMode)) (s : AxisShaper α) :
    (selectedBy selected s).axis = s.axis := by
  cases selected with
  | none => rfl
  | some choice => exact axis_select s choice.1 choice.2

/-- What a request makes of each shaper. -/
theorem forall₂_requested {shapers requested' : List (AxisShaper α)} {selected : Option (Nat × CarriageMode)}
    {r : ShaperRequest α} (h : requested shapers selected r = .ok requested') :
    List.Forall₂ (fun s s' => (selectedBy selected s).update (r.axisUpdate s.axis) = .ok s') shapers requested' := by
  unfold requested at h
  cases hc : shapers.forM fun a => (r.axisUpdate a.axis).check with
  | error e =>
    rw [hc] at h
    cases h
  | ok _ =>
    rw [hc] at h
    refine (forall₂_of_mapM h).imp fun s s' hs => ?_
    rw [← axis_selectedBy selected s]
    exact hs

theorem axes_requested {shapers requested' : List (AxisShaper α)} {selected : Option (Nat × CarriageMode)}
    {r : ShaperRequest α} (h : requested shapers selected r = .ok requested') :
    requested'.map (·.axis) = shapers.map (·.axis) := by
  rw [← List.forall₂_eq_eq_eq, List.forall₂_map_left_iff, List.forall₂_map_right_iff]
  refine List.Forall₂.flip ((forall₂_requested h).imp fun s s' hs => ?_)
  exact (axis_update hs).trans (axis_selectedBy selected s)

/-- A shaping call is refused and changes nothing, or it configures shapers of the same axes. -/
theorem shape_cases (g : StepGenerator α) (shapers : List (AxisShaper α)) (c : ShapingCall α) :
    (∃ e, g.shape shapers c = (g, shapers, some e)) ∨
      ∃ (g₁ : StepGenerator α) (selected : List (AxisShaper α)), g₁.members = g.members ∧
        selected.map (·.axis) = shapers.map (·.axis) ∧ g.shape shapers c = g₁.configureShaping selected := by
  cases c with
  | configure => exact .inr ⟨g, shapers, rfl, rfl, rfl⟩
  | changeMode toolhead mode =>
    refine .inr ⟨{ g with activeToolhead := toolhead, activeMode := mode }, _, rfl, ?_, rfl⟩
    rw [List.map_map]
    exact List.map_congr_left fun a _ => axis_select a toolhead mode
  | request r =>
    simp only [shape, requestShaping]
    split
    · exact .inl ⟨_, rfl⟩
    · split
      · exact .inl ⟨_, rfl⟩
      · rename_i hr
        exact .inr ⟨g, _, rfl, axes_requested hr, rfl⟩

/-- A shaping call, or another transform of a carriage. -/
inductive Adjustment (α : Type) where
  | shape (c : ShapingCall α)
  | carriage (name : String) (axis : Char) (scale offset : α)

/-- Whether a carriage gets another transform. -/
def Adjustment.isCarriage : Adjustment α → Bool
  | carriage .. => true
  | _ => false

/-- The generator and the shapers after an adjustment, whether it is refused or not. -/
def adjust (state : StepGenerator α × List (AxisShaper α)) :
    Adjustment α → StepGenerator α × List (AxisShaper α)
  | .shape c => ((state.1.shape state.2 c).1, (state.1.shape state.2 c).2.1)
  | .carriage name axis scale offset => ((state.1.setCarriage name axis scale offset).1, state.2)

/-- The generator and the shapers after adjustments. -/
def adjusted (g : StepGenerator α) (shapers : List (AxisShaper α)) (adjustments : List (Adjustment α)) :
    StepGenerator α × List (AxisShaper α) := adjustments.foldl adjust (g, shapers)

/-! ## What holds of all models -/

/-- What holds of a model in any of the ways in which adjustments change it. -/
structure Adjustable (P : Model α → Prop) : Prop where
  transform {m m' : Model α} {axis : Char} {scale offset : α} {e : Option (KinematicsError α)} :
    m.setTransform? axis scale offset = some (e, m') → P m → P m'
  wrap {m m' : Model α} : m.shapers = [] → m.shaped? = .ok m' → P m → P m'
  pulses {m m' : Model α} {f : Shaping α → AxisSet → (List (AxisShaper α) × List String) × Shaping α}
    {b : List (AxisShaper α) × List String} : m.changeShaper? f = some (b, m') → P m → P m'

theorem adjustable_built : Adjustable (Model.Built (α := α)) where
  transform := Model.Built.setTransform?
  wrap _ := Model.Built.shaped?
  pulses := Model.Built.changeShaper?

theorem adjustable_once : Adjustable fun m : Model α => m.shapers.length ≤ 1 where
  transform h hm := by rwa [Model.length_shapers_setTransform? h]
  wrap hnil h _ := by
    obtain ⟨rfl, -⟩ := Model.shaped?_eq_ok h
    rw [Model.shapers, hnil]
    exact le_rfl
  pulses {m m' f b} h hm := by
    obtain ⟨-, hnone⟩ | ⟨s, axes, rest, m₁, hs, hsome, hs', -⟩ := m.changeShaper?_cases f
    · rw [hnone] at h
      cases h
    · rw [hsome] at h
      cases h
      rw [hs', List.length_cons]
      rwa [hs, List.length_cons] at hm

/-- The steppers of a generator, without their windows. -/
def steppers (g : StepGenerator α) : List (Stepper α) := g.members.map Member.stepper

/-- Changes the model of the first stepper of a name. -/
def remodelFirst (name : String) (f : Model α → Model α) : List (Stepper α) → List (Stepper α)
  | [] => []
  | s :: rest => if s.name = name then { s with model := f s.model } :: rest else s :: remodelFirst name f rest

theorem steppers_refreshWindows (g : StepGenerator α) : g.refreshWindows.steppers = g.steppers := by
  rw [steppers, refreshWindows_members, List.map_map]
  rfl

omit [Scalar α] in
theorem remodelFirst_of_forall {name : String} (f : Model α → Model α) : ∀ {l : List (Stepper α)},
    (∀ s ∈ l, s.name ≠ name) → remodelFirst name f l = l
  | [], _ => rfl
  | s :: rest, h => by
    obtain ⟨hs, hrest⟩ := List.forall_mem_cons.1 h
    rw [remodelFirst, if_neg hs, remodelFirst_of_forall f hrest]

omit [Scalar α] in
theorem remodelFirst_of_some {name : String} (f : Model α → Model α) {s : Stepper α} : ∀ {members : List (Member α)},
    (members.find? fun m => m.stepper.name = name).map Member.stepper = some s →
      remodelFirst name f (members.map Member.stepper) =
        (replaceFirst name { s with model := f s.model } members).map Member.stepper
  | m :: rest, h => by
    rw [List.map_cons, remodelFirst, replaceFirst]
    by_cases hn : m.stepper.name = name
    · rw [List.find?_cons_of_pos (by simpa using hn)] at h
      rw [if_pos hn, if_pos hn, ← Option.some.inj h]
      rfl
    · rw [List.find?_cons_of_neg (by simpa using hn)] at h
      rw [if_neg hn, if_neg hn, List.map_cons, remodelFirst_of_some f h]

/-- Setting a carriage changes a transform in the model of one stepper. -/
theorem steppers_setCarriage (g : StepGenerator α) (name : String) (axis : Char) (scale offset : α) :
    (g.setCarriage name axis scale offset).1.steppers =
      remodelFirst name (Model.changeInside (.transform axis scale offset) 0) g.steppers := by
  unfold setCarriage changeModel
  split
  · rename_i hs
    refine (remodelFirst_of_forall _ fun s hs' => ?_).symm
    obtain ⟨m, hm, rfl⟩ := List.mem_map.1 hs'
    simpa using List.find?_eq_none.1 (Option.map_eq_none_iff.1 hs) m hm
  · rename_i s hs
    have hremodel := remodelFirst_of_some (Model.changeInside (.transform axis scale offset) 0) hs
    split
    · rename_i hnone
      have hsame : s.model.changeInside (.transform axis scale offset) 0 = s.model := by
        simp [Model.changeInside, Model.Change.made?, hnone]
      have hself : (g.setStepper name s).members = g.members := congrArg members (setStepper_self hs)
      rw [hsame] at hremodel
      rw [steppers, hremodel]
      exact (congrArg (List.map Member.stepper) hself).symm
    all_goals
      rename_i model hsome
      have hmodel : s.model.changeInside (.transform axis scale offset) 0 = model := by
        simp [Model.changeInside, Model.Change.made?, hsome]
      rw [hmodel] at hremodel
    · exact hremodel.symm
    · rw [steppers_refreshWindows]
      exact hremodel.symm

theorem Adjustable.changeInside {P : Model α → Prop} (h : Adjustable P) {axis : Char} {scale offset : α} {m : Model α}
    (hm : P m) : P (m.changeInside (.transform axis scale offset) 0) := by
  simp only [Model.changeInside, Model.Change.made?]
  cases ht : m.setTransform? axis scale offset with
  | none => exact hm
  | some r => exact h.transform ht hm

theorem Adjustable.shapeMember {P : Model α → Prop} (h : Adjustable P) (shapers : List (AxisShaper α))
    (failed : List String) {m : Member α} (hm : P m.stepper.model) :
    P (shapeMember shapers failed m).2.2.stepper.model := by
  unfold StepGenerator.shapeMember
  split
  · exact hm
  · dsimp only
    split
    · exact hm
    · rename_i wrapped hwrapped
      have hP : P wrapped := by
        split at hwrapped
        · cases hwrapped
          exact hm
        · rename_i hhas
          exact h.wrap (by simpa [Model.hasShaper_iff] using hhas) hwrapped hm
      split
      · exact hm
      · rename_i hchange
        exact h.pulses hchange hP

theorem Adjustable.shapeMembers {P : Model α → Prop} (h : Adjustable P) : ∀ {members : List (Member α)}
    (shapers : List (AxisShaper α)) (failed : List String), (∀ m ∈ members, P m.stepper.model) →
      ∀ m ∈ (StepGenerator.shapeMembers members shapers failed).1, P m.stepper.model
  | [], _, _, _, _, hm => by cases hm
  | m :: rest, shapers, failed, hl, m', hm' => by
    rw [shapeMembers_cons] at hm'
    rcases List.mem_cons.1 hm' with rfl | hm'
    · exact h.shapeMember shapers failed (hl m List.mem_cons_self)
    · exact h.shapeMembers _ _ (fun m hm => hl m (List.mem_cons_of_mem _ hm)) m' hm'

omit [Scalar α] in
theorem forall_remodelFirst {P : Model α → Prop} {name : String} {f : Model α → Model α}
    (hf : ∀ m, P m → P (f m)) : ∀ {l : List (Stepper α)}, (∀ s ∈ l, P s.model) →
      ∀ s ∈ remodelFirst name f l, P s.model
  | [], _, _, hs => by cases hs
  | s :: rest, hl, s', hs' => by
    obtain ⟨hs, hrest⟩ := List.forall_mem_cons.1 hl
    rw [remodelFirst] at hs'
    split at hs' <;> rcases List.mem_cons.1 hs' with rfl | hs'
    · exact hf _ hs
    · exact hrest s' hs'
    · exact hs
    · exact forall_remodelFirst hf hrest s' hs'

theorem steppers_configureShaping (g : StepGenerator α) (shapers : List (AxisShaper α)) :
    (g.configureShaping shapers).1.steppers = (shapeMembers g.members shapers []).1.map Member.stepper :=
  steppers_refreshWindows _

/-- What holds of all models holds of them after adjustments. -/
theorem Adjustable.adjusted {P : Model α → Prop} (h : Adjustable P) (adjustments : List (Adjustment α)) :
    ∀ (g : StepGenerator α) (shapers : List (AxisShaper α)), (∀ s ∈ g.steppers, P s.model) →
      ∀ s ∈ (g.adjusted shapers adjustments).1.steppers, P s.model := by
  induction adjustments with
  | nil => exact fun _ _ hg => hg
  | cons adjustment rest ih =>
    intro g shapers hg
    refine ih (adjust (g, shapers) adjustment).1 (adjust (g, shapers) adjustment).2 ?_
    cases adjustment with
    | shape c =>
      obtain ⟨e, heq⟩ | ⟨g₁, selected, hmembers, -, heq⟩ := g.shape_cases shapers c
      · simp only [adjust, heq]
        exact hg
      · simp only [adjust, heq, steppers_configureShaping, hmembers]
        intro s hs
        obtain ⟨m, hm, rfl⟩ := List.mem_map.1 hs
        exact h.shapeMembers selected [] (fun m hm => hg _ (List.mem_map_of_mem hm)) m hm
    | carriage name axis scale offset =>
      simp only [adjust, steppers_setCarriage]
      exact forall_remodelFirst (P := P) (fun m hm => h.changeInside hm) hg

/-! ## Steppers of other queues -/

/-- The models of the steppers of other queues than that of the toolhead. -/
def others (g : StepGenerator α) : List (Model α) :=
  g.steppers.filterMap fun s => if s.queue = some .toolhead then none else some s.model

/-- What adjustments of the toolhead leave of a stepper. -/
def side (s : Stepper α) : String × Option QueueRef × Option (Model α) :=
  (s.name, s.queue, if s.queue = some .toolhead then none else some s.model)

omit [Scalar α] in
theorem others_of_side {g g' : StepGenerator α} (h : g.steppers.map side = g'.steppers.map side) :
    g.others = g'.others := by
  have hside : ∀ g : StepGenerator α, g.others = (g.steppers.map side).filterMap (·.2.2) := fun g => by
    rw [List.filterMap_map]
    rfl
  rw [hside, hside, h]

omit [Scalar α] in
theorem side_remodelFirst (name : String) (f : Model α → Model α) : ∀ {l l' : List (Stepper α)},
    l.map side = l'.map side → (remodelFirst name f l).map side = (remodelFirst name f l').map side
  | [], [], _ => rfl
  | [], _ :: _, h => by cases h
  | _ :: _, [], h => by cases h
  | s :: rest, s' :: rest', h => by
    obtain ⟨hs, hrest⟩ := List.cons_eq_cons.1 h
    have hname : s.name = s'.name := congrArg Prod.fst hs
    have hqueue : s.queue = s'.queue := congrArg (·.2.1) hs
    rw [remodelFirst, remodelFirst, hname]
    split
    · refine List.cons_eq_cons.2 ⟨?_, hrest⟩
      unfold side at hs ⊢
      by_cases hq : s'.queue = some .toolhead
      · simp [hq, hqueue]
      · simp only [hqueue, hq, if_false, Prod.mk.injEq, Option.some.injEq] at hs
        simp [hq, hqueue, hs.2.2]
    · exact List.cons_eq_cons.2 ⟨hs, side_remodelFirst name f hrest⟩

theorem side_shapeMembers : ∀ (members : List (Member α)) (shapers : List (AxisShaper α)) (failed : List String),
    ((shapeMembers members shapers failed).1.map Member.stepper).map side = (members.map Member.stepper).map side
  | [], _, _ => rfl
  | m :: rest, shapers, failed => by
    rw [shapeMembers_cons]
    refine List.cons_eq_cons.2 ⟨?_, side_shapeMembers rest _ _⟩
    by_cases hq : m.stepper.queue = some .toolhead
    · obtain ⟨model, heq⟩ := refitted_shapeMember shapers failed m
      rw [heq]
      simp [side, hq]
    · rw [shapeMember_other hq]

theorem side_shape (g : StepGenerator α) (shapers : List (AxisShaper α)) (c : ShapingCall α) :
    (g.shape shapers c).1.steppers.map side = g.steppers.map side := by
  obtain ⟨e, heq⟩ | ⟨g₁, selected, hmembers, -, heq⟩ := g.shape_cases shapers c
  · rw [heq]
  · rw [heq, steppers_configureShaping, hmembers]
    exact side_shapeMembers g.members selected []

/-- Without the shaping calls steppers of other queues come to the same. -/
theorem side_adjusted (adjustments : List (Adjustment α)) : ∀ (g g' : StepGenerator α)
    (shapers shapers' : List (AxisShaper α)), g.steppers.map side = g'.steppers.map side →
      (g.adjusted shapers adjustments).1.steppers.map side =
        (g'.adjusted shapers' (adjustments.filter (·.isCarriage))).1.steppers.map side := by
  induction adjustments with
  | nil => exact fun _ _ _ _ h => h
  | cons adjustment rest ih =>
    intro g g' shapers shapers' h
    cases adjustment with
    | shape c => exact ih (g.shape shapers c).1 g' _ shapers' ((side_shape g shapers c).trans h)
    | carriage name axis scale offset =>
      refine ih (g.setCarriage name axis scale offset).1 (g'.setCarriage name axis scale offset).1 shapers shapers' ?_
      rw [steppers_setCarriage, steppers_setCarriage]
      exact side_remodelFirst name _ h

/-! ## Runs -/

theorem axes_adjusted (adjustments : List (Adjustment α)) : ∀ (g : StepGenerator α) (shapers : List (AxisShaper α)),
    (g.adjusted shapers adjustments).2.map (·.axis) = shapers.map (·.axis) := by
  induction adjustments with
  | nil => exact fun _ _ => rfl
  | cons adjustment rest ih =>
    intro g shapers
    refine (ih (adjust (g, shapers) adjustment).1 (adjust (g, shapers) adjustment).2).trans ?_
    cases adjustment with
    | shape c =>
      obtain ⟨e, heq⟩ | ⟨g₁, selected, -, haxes, heq⟩ := g.shape_cases shapers c
      · simp only [adjust, heq]
      · simp only [adjust, heq]
        exact (axes_shapeMembers g₁.members selected []).trans haxes
    | carriage name axis scale offset => rfl

theorem adjusted_append (g : StepGenerator α) (shapers : List (AxisShaper α)) (adjustments : List (Adjustment α))
    (last : Adjustment α) : g.adjusted shapers (adjustments ++ [last]) = adjust (g.adjusted shapers adjustments) last :=
  List.foldl_concat ..

theorem window_configureShaping (g : StepGenerator α) (shapers : List (AxisShaper α)) :
    ∀ m ∈ (g.configureShaping shapers).1.members, m.window = m.stepper.model.scanWindow := by
  intro m hm
  simp only [configureShaping, refreshWindows_members] at hm
  obtain ⟨old, -, rfl⟩ := List.mem_map.1 hm
  rfl

/-- After adjustments that end with a shaping call that succeeds, the steppers of the toolhead are shaped as the
shapers say, each once. Steppers of other queues are as the carriage transforms alone leave them. And
configuring the shapers again changes nothing. -/
theorem shaping_uniform [Scalar.Lawful α] {g g' : StepGenerator α} {shapers shapers' : List (AxisShaper α)}
    (honce : ∀ m ∈ g.members, m.stepper.model.shapers.length ≤ 1) (hbuilt : ∀ m ∈ g.members, m.stepper.model.Built)
    (haxes : (shapers.map (·.axis)).Nodup) (adjustments : List (Adjustment α)) (last : ShapingCall α)
    (hok : (g.adjusted shapers adjustments).1.shape (g.adjusted shapers adjustments).2 last = (g', shapers', none)) :
    (∀ m ∈ g'.members, m.stepper.queue = some .toolhead → Settled shapers' m.stepper.model) ∧
      g'.others = (g.adjusted shapers (adjustments.filter (·.isCarriage))).1.others ∧
      g'.configureShaping shapers' = (g', shapers', none) := by
  have hlast : g.adjusted shapers (adjustments ++ [.shape last]) = (g', shapers') := by
    rw [adjusted_append, adjust, hok]
  have hsides := side_adjusted (adjustments ++ [.shape last]) g g shapers shapers rfl
  have hbuilt' := adjustable_built.adjusted (adjustments ++ [.shape last]) g shapers (List.forall_mem_map.2 hbuilt)
  have honce' := adjustable_once.adjusted adjustments g shapers (List.forall_mem_map.2 honce)
  rw [hlast] at hsides hbuilt'
  obtain ⟨e, heq⟩ | ⟨g₁, selected, hmembers, hselected, heq⟩ := shape_cases _ _ last
  · rw [hok] at heq
    cases heq
  rw [hok] at heq
  have hd : (selected.map (·.axis)).Nodup := by
    rw [hselected, axes_adjusted]
    exact haxes
  have honce₁ : ∀ m ∈ g₁.members, m.stepper.model.shapers.length ≤ 1 := by
    rw [hmembers]
    exact List.forall_mem_map.1 honce'
  obtain ⟨hshapers, hsettled⟩ := configureShaping_of_none hd honce₁ (congrArg (·.2.2) heq.symm)
  have hcurrent := g₁.window_configureShaping selected
  rw [← heq] at hshapers hsettled hcurrent
  obtain rfl : shapers' = selected := hshapers
  refine ⟨hsettled, ?_, configureShaping_of_settled hsettled ?_⟩
  · have hlast' : [Adjustment.shape last].filter (·.isCarriage) = [] := rfl
    rw [others_of_side hsides, List.filter_append, hlast', List.append_nil]
  · refine refreshWindows_of_current hcurrent fun m hm => ?_
    rw [hcurrent m hm]
    exact (Scalar.Lawful.isNumber_of_le (hbuilt' _ (List.mem_map_of_mem hm)).zero_le_scanWindow).2

/-- Two carriages, the second of which belongs to a queue of its own, and a stepper of the second axis. -/
def twoCarriages : StepGenerator ℚ :=
  ((empty.addStepper (Stepper.new "x" 0.01 (Model.linear .x).onCarriage)).addStepper
    { Stepper.new "u" 0.01 (Model.linear .x).onCarriage with queue := some (.extra "u") }).addStepper
      (Stepper.new "y" 0.01 (.linear .y))

/-- A shaper for each of the first two axes. -/
def bothAxes : List (AxisShaper ℚ) :=
  ['x', 'y'].map fun axis =>
    { axis, kinds := ⟨.zv, []⟩, freqs := ⟨50, []⟩, dampings := ⟨0, []⟩, toolhead := 0, mode := .primary
      params := ⟨.zv, 50, 0⟩, saved := none }

theorem twoCarriages_built : ∀ m ∈ twoCarriages.members, m.stepper.model.Built := by
  simp [twoCarriages, addStepper_members, empty, Stepper.new, Model.onCarriage, Model.Built]

/-- The first carriage is parked while shapers are put in, and moves again for the last call. The second one is
mirrored. -/
def reparked : List (Adjustment ℚ) :=
  [.carriage "x" 'x' 0 250, .shape (.changeMode 1 .copy), .carriage "u" 'x' (-1) 300, .carriage "x" 'x' 1 0]

theorem shaping_uniform_reparked : ∃ g' shapers',
    (twoCarriages.adjusted bothAxes reparked).1.shape (twoCarriages.adjusted bothAxes reparked).2 .configure =
        (g', shapers', none) ∧
      g'.members.map (·.stepper.model.shapers.length) = [1, 0, 1] ∧
      (∀ m ∈ g'.members, m.stepper.queue = some .toolhead → Settled shapers' m.stepper.model) ∧
      g'.others = (twoCarriages.adjusted bothAxes (reparked.filter (·.isCarriage))).1.others ∧
      g'.configureShaping shapers' = (g', shapers', none) := by
  obtain ⟨g', shapers', hlengths, hok⟩ : ∃ g' shapers', g'.members.map (·.stepper.model.shapers.length) = [1, 0, 1] ∧
      (twoCarriages.adjusted bothAxes reparked).1.shape (twoCarriages.adjusted bothAxes reparked).2 .configure =
        (g', shapers', none) := by
    refine ⟨_, _, by decide +kernel, Prod.ext rfl (Prod.ext rfl ?_)⟩
    exact Option.isNone_iff_eq_none.1 (by decide +kernel)
  exact ⟨g', shapers', hok, hlengths, shaping_uniform (by decide +kernel) twoCarriages_built (by decide +kernel)
    reparked .configure hok⟩

/-- A carriage gets another transform whatever its queue is. -/
theorem not_others_untouched : ¬ ∀ (g g' : StepGenerator ℚ) (shapers shapers' : List (AxisShaper ℚ))
    (adjustments : List (Adjustment ℚ)) (last : ShapingCall ℚ), (∀ m ∈ g.members, m.stepper.model.shapers.length ≤ 1) →
    (∀ m ∈ g.members, m.stepper.model.Built) → (shapers.map (·.axis)).Nodup →
    (g.adjusted shapers adjustments).1.shape (g.adjusted shapers adjustments).2 last = (g', shapers', none) →
    g'.others = g.others := by
  intro h
  obtain ⟨g', shapers', hparked, hok⟩ : ∃ g' shapers', g'.others.map Model.axes = [⟨false, false, false⟩] ∧
      (twoCarriages.adjusted bothAxes [.carriage "u" 'x' 0 250]).1.shape
        (twoCarriages.adjusted bothAxes [.carriage "u" 'x' 0 250]).2 .configure = (g', shapers', none) := by
    refine ⟨_, _, by decide +kernel, Prod.ext rfl (Prod.ext rfl ?_)⟩
    exact Option.isNone_iff_eq_none.1 (by decide +kernel)
  rw [h _ _ _ _ _ _ (by decide +kernel) twoCarriages_built (by decide +kernel) hok] at hparked
  exact absurd hparked (by decide +kernel)

end PrinterMotion.StepGenerator
