/-
What a request for other shaper parameters leaves alone. One that is invalid changes nothing at all. Any other
one gives a shaper that it does not mention back its parameters: they are as they were, but for a shaper whose
shaping has been switched off, which is switched on again with what was put aside. Only a model that refuses the
impulses of a shaper switches it off.
-/
import PrinterMotion.Proofs.Shaping.Impulses
import PrinterMotion.Proofs.StepGenerator.Uniform

namespace PrinterMotion

variable {α : Type} [Scalar α]

/-- Whether a request says nothing about the shaper of an axis. -/
structure ShaperRequest.Spares (r : ShaperRequest α) (axis : Char) : Prop where
  toolhead : r.toolhead = none
  mode : r.mode = none
  fields : r.axisUpdate axis = ⟨none, none, none⟩

namespace AxisShaper

variable {s s' : AxisShaper α}

/-- Whether no pulses can be made of the impulses of a shaper. -/
def Refused (s : AxisShaper α) : Prop :=
  ∃ e, PulseTrain.ofShaper s.impulses.1.length s.impulses.1 s.impulses.2 = .error e

/-- An update that gives nothing switches shaping on. -/
theorem update_nothing (s : AxisShaper α) : s.update ⟨none, none, none⟩ = .ok s.enable := by
  have hcheck : (⟨none, none, none⟩ : ShaperUpdate α).check = .ok () := rfl
  unfold update enable
  rw [hcheck]
  cases hs : s.saved with
  | none =>
    cases s
    cases hs
    rfl
  | some p => rfl

omit [Scalar α] in
theorem enable_of_none (h : s.saved = none) : s.enable = s := by
  rw [enable, h]

omit [Scalar α] in
theorem name_enable (s : AxisShaper α) : s.enable.name = s.name := by
  unfold enable
  split <;> rfl

/-- Impulses of which pulses can be made are accepted. A model that does not move along the axis gets no pulses. -/
theorem applyTo_of_train (h : s.axis = 'x' ∨ s.axis = 'y') {train : PulseTrain α}
    (htrain : PulseTrain.ofShaper s.impulses.1.length s.impulses.1 s.impulses.2 = .ok train) (shaping : Shaping α)
    (axes : AxisSet) : ∃ i : Axis, i ≠ .z ∧ i.letter = s.axis ∧
      s.applyTo shaping axes = (s, shaping.put (if axes.has i then train else []) i, none) := by
  obtain ⟨i, hi, hletter⟩ : ∃ i : Axis, i ≠ .z ∧ i.letter = s.axis := by
    obtain hx | hy := h
    · exact ⟨.x, nofun, hx.symm⟩
    · exact ⟨.y, nofun, hy.symm⟩
  have hof : PulseTrain.Of axes i s.impulses.1.length s.impulses.1 s.impulses.2
      (if axes.has i then train else []) := by
    unfold PulseTrain.Of
    split
    · exact htrain
    · rfl
  have hset := Shaping.setAxis_of (s := shaping) hi hof
  rw [hletter] at hset
  refine ⟨i, hi, hletter, ?_⟩
  unfold applyTo
  dsimp only
  rw [hset]

/-- A shaper of one of the first two axes is switched off where its impulses are refused, and not changed
elsewhere. -/
theorem applyTo_cases (h : s.axis = 'x' ∨ s.axis = 'y') (shaping : Shaping α) (axes : AxisSet) :
    ((s.applyTo shaping axes).1 = s ∧ (s.applyTo shaping axes).2.2 = none) ∨
      (s.applyTo shaping axes).1 = s.disable ∧ (s.applyTo shaping axes).2.2.isSome ∧ s.Refused := by
  cases htrain : PulseTrain.ofShaper s.impulses.1.length s.impulses.1 s.impulses.2 with
  | ok train =>
    obtain ⟨i, -, -, heq⟩ := applyTo_of_train h htrain shaping axes
    rw [heq]
    exact .inl ⟨rfl, rfl⟩
  | error e =>
    cases hset : shaping.setAxis axes s.axis s.impulses.1.length s.impulses.1 s.impulses.2 with
    | mk shaping' error =>
      unfold applyTo
      dsimp only
      rw [hset]
      cases error with
      | none => exact .inl ⟨rfl, rfl⟩
      | some e' => exact .inr ⟨rfl, rfl, e, htrain⟩

end AxisShaper

namespace StepGenerator

/-! ## Refusals -/

/-- What becomes of a shaper while the names of those that have failed grow from `failed` to `failed'`. -/
structure Keeps (failed failed' : List String) (s s' : AxisShaper α) : Prop where
  skipped : s.name ∈ failed → s' = s
  cases : s' = s ∨ s' = s.disable ∧ s.name ∈ failed' ∧ s.Refused

variable {failed failed' failed'' : List String} {s s' s'' : AxisShaper α}

theorem Keeps.refl (failed : List String) (s : AxisShaper α) : Keeps failed failed s s := ⟨fun _ => rfl, .inl rfl⟩

theorem Keeps.trans (h : Keeps failed failed' s s') (h' : Keeps failed' failed'' s' s'') (hsub : failed ⊆ failed')
    (hsub' : failed' ⊆ failed'') : Keeps failed failed'' s s'' := by
  refine ⟨fun hs => ?_, ?_⟩
  · obtain rfl := h.skipped hs
    exact h'.skipped (hsub hs)
  · obtain rfl | ⟨rfl, hname, hrefused⟩ := h.cases
    · exact h'.cases
    · -- It has failed by now, so it is skipped.
      exact .inr ⟨h'.skipped hname, hsub' hname, hrefused⟩

theorem Keeps.axis_eq (h : Keeps failed failed' s s') : s'.axis = s.axis := by
  obtain rfl | ⟨rfl, -⟩ := h.cases <;> rfl

/-- Shapers are kept while more of them may fail. -/
structure KeptAll (failed : List String) (shapers : List (AxisShaper α)) (failed' : List String)
    (shapers' : List (AxisShaper α)) : Prop where
  subset : failed ⊆ failed'
  keeps : List.Forall₂ (Keeps failed failed') shapers shapers'

variable {shapers shapers' shapers'' : List (AxisShaper α)}

theorem KeptAll.refl (failed : List String) (shapers : List (AxisShaper α)) : KeptAll failed shapers failed shapers :=
  ⟨List.Subset.refl _, List.forall₂_same.2 fun s _ => .refl failed s⟩

theorem KeptAll.trans (h : KeptAll failed shapers failed' shapers') (h' : KeptAll failed' shapers' failed'' shapers'') :
    KeptAll failed shapers failed'' shapers'' :=
  ⟨List.Subset.trans h.subset h'.subset,
    forall₂_trans (fun _ _ _ hs hs' => hs.trans hs' h.subset h'.subset) h.keeps h'.keeps⟩

/-- Shapers for the first two axes, as all are that can be made. -/
def Planar (shapers : List (AxisShaper α)) : Prop := ∀ s ∈ shapers, s.axis = 'x' ∨ s.axis = 'y'

omit [Scalar α] in
theorem Planar.of_axes (h : Planar shapers) (haxes : shapers'.map (·.axis) = shapers.map (·.axis)) :
    Planar shapers' := by
  intro s' hs'
  have hmem : s'.axis ∈ shapers.map (·.axis) := haxes ▸ List.mem_map_of_mem hs'
  obtain ⟨s, hs, heq⟩ := List.mem_map.1 hmem
  rw [← heq]
  exact h s hs

theorem Planar.keptAll (h : Planar shapers) (hk : KeptAll failed shapers failed' shapers') : Planar shapers' := by
  intro s' hs'
  obtain ⟨s, hs, hkeeps⟩ := exists_of_forall₂ hk.keeps s' hs'
  rw [hkeeps.axis_eq]
  exact h s hs

theorem keptAll_applyShapers (axes : AxisSet) : ∀ {shapers : List (AxisShaper α)} (failed : List String)
    (s : Shaping α), Planar shapers →
      KeptAll failed shapers (applyShapers axes shapers failed s).2.1 (applyShapers axes shapers failed s).1
  | [], failed, _, _ => .refl failed []
  | a :: rest, failed, s, h => by
    obtain ⟨ha, hrest⟩ := List.forall_mem_cons.1 h
    rw [applyShapers]
    split
    · rename_i hfailed
      obtain ⟨hsub, hkeeps⟩ := keptAll_applyShapers axes failed s hrest
      exact ⟨hsub, .cons ⟨fun _ => rfl, .inl rfl⟩ hkeeps⟩
    · rename_i hnot
      have hfresh : a.name ∉ failed := by simpa using hnot
      have happly := a.applyTo_cases ha s axes
      generalize a.applyTo s axes = answer at happly ⊢
      obtain ⟨applied, s₁, error⟩ := answer
      dsimp only at happly ⊢
      obtain ⟨hsub, hkeeps⟩ := keptAll_applyShapers axes (if error.isSome then failed ++ [a.name] else failed) s₁ hrest
      have hgrown : failed ⊆ if error.isSome then failed ++ [a.name] else failed := by
        split
        · exact List.subset_append_left _ _
        · exact List.Subset.refl _
      refine ⟨List.Subset.trans hgrown hsub, .cons ⟨fun hs => absurd hs hfresh, ?_⟩ ?_⟩
      · obtain ⟨rfl, -⟩ | ⟨rfl, hsome, hrefused⟩ := happly
        · exact .inl rfl
        · refine .inr ⟨rfl, hsub ?_, hrefused⟩
          rw [if_pos hsome]
          exact List.mem_append_right _ (List.mem_singleton_self _)
      · exact hkeeps.imp fun u u' hu => ⟨fun hs => hu.skipped (hgrown hs), hu.cases⟩

theorem keptAll_shapeMember (failed : List String) (m : Member α) (h : Planar shapers) :
    KeptAll failed shapers (shapeMember shapers failed m).2.1 (shapeMember shapers failed m).1 := by
  by_cases hq : m.stepper.queue = some .toolhead
  · obtain ⟨-, -, heq⟩ | ⟨wrapped, s, axes, rest, model, -, -, -, -, heq⟩ := shapeMember_cases shapers failed hq
    · rw [heq]
      exact .refl failed shapers
    · rw [heq]
      exact keptAll_applyShapers axes failed s h
  · rw [shapeMember_other hq]
    exact .refl failed shapers

theorem keptAll_shapeMembers : ∀ (members : List (Member α)) {shapers : List (AxisShaper α)} (failed : List String),
    Planar shapers →
      KeptAll failed shapers (shapeMembers members shapers failed).2.2 (shapeMembers members shapers failed).2.1
  | [], shapers, failed, _ => .refl failed shapers
  | m :: rest, shapers, failed, h => by
    rw [shapeMembers_cons]
    have hfirst := keptAll_shapeMember failed m h
    exact hfirst.trans (keptAll_shapeMembers rest (shapeMember shapers failed m).2.1 (h.keptAll hfirst))

/-- A shaper that is configured is kept, or its impulses are refused; then it is switched off and named in the
error. -/
theorem configureShaping_keeps (g : StepGenerator α) (h : Planar shapers) :
    List.Forall₂ (fun s s' => s' = s ∨ s.Refused ∧ s' = s.disable ∧
      ∃ names, (g.configureShaping shapers).2.2 = some (.shaperConfig names) ∧ s.name ∈ names)
      shapers (g.configureShaping shapers).2.1 := by
  refine (keptAll_shapeMembers g.members [] h).keeps.imp fun s s' hs => ?_
  obtain rfl | ⟨rfl, hname, hrefused⟩ := hs.cases
  · exact .inl rfl
  · refine .inr ⟨hrefused, rfl, _, ?_, hname⟩
    have hfailed : (shapeMembers g.members shapers []).2.2.isEmpty = false := by
      rw [List.isEmpty_eq_false_iff_exists_mem]
      exact ⟨_, hname⟩
    simp [configureShaping, hfailed]

/-! ## Requests -/

/-- An invalid request changes nothing. Any other one switches each shaper that it spares on, which leaves it as it
is if its shaping has not been switched off; such a shaper is switched off only if its impulses are refused, and in
real arithmetic none are. -/
theorem requests_spare (g : StepGenerator α) (r : ShaperRequest α) (h : Planar shapers) :
    (∀ fault, (g.requestShaping shapers r).2.2 = some (.invalidRequest fault) →
      (g.requestShaping shapers r).1 = g ∧ (g.requestShaping shapers r).2.1 = shapers) ∧
    ((∀ fault, (g.requestShaping shapers r).2.2 ≠ some (.invalidRequest fault)) →
      List.Forall₂ (fun s s' => r.Spares s.axis → (s.saved = none → s.enable = s) ∧ (s' = s.enable ∨
        s.enable.Refused ∧ s' = s.enable.disable ∧
          ∃ names, (g.requestShaping shapers r).2.2 = some (.shaperConfig names) ∧ s.name ∈ names))
        shapers (g.requestShaping shapers r).2.1) ∧
    ∀ s : AxisShaper ℝ, ¬ s.Refused := by
  have hreal : ∀ s : AxisShaper ℝ, ¬ s.Refused := by
    rintro s ⟨e, he⟩
    obtain ⟨train, htrain⟩ := s.params.ofShaper_impulses
    rw [AxisShaper.impulses, htrain] at he
    cases he
  unfold requestShaping
  cases hselected : g.selection r with
  | error fault => exact ⟨fun _ _ => ⟨rfl, rfl⟩, fun hvalid => absurd rfl (hvalid fault), hreal⟩
  | ok selected =>
    dsimp only
    cases hrequested : requested shapers selected r with
    | error fault => exact ⟨fun _ _ => ⟨rfl, rfl⟩, fun hvalid => absurd rfl (hvalid (.parameter fault)), hreal⟩
    | ok shapers' =>
      have hplanar : Planar shapers' := h.of_axes (axes_requested hrequested)
      refine ⟨fun fault hfault => ?_, fun _ => ?_, hreal⟩
      · simp only [configureShaping] at hfault
        split at hfault <;> cases hfault
      · refine forall₂_trans (fun s mid s' hmid hs' hspared => ?_) (forall₂_requested hrequested)
          (g.configureShaping_keeps hplanar)
        obtain ⟨htoolhead, hmode, hfields⟩ := hspared
        obtain rfl : selected = none := by
          simpa [selection, htoolhead, hmode] using hselected.symm
        rw [hfields, selectedBy, AxisShaper.update_nothing] at hmid
        cases hmid
        rw [AxisShaper.name_enable] at hs'
        exact ⟨AxisShaper.enable_of_none, hs'⟩

/-- A request for another frequency of the first axis. -/
def retune : ShaperRequest ℚ := ⟨none, none, none, ⟨none, some 60, none⟩, ⟨none, none, none⟩⟩

theorem requests_spare_retune : Planar bothAxes ∧ (∀ fault, (twoCarriages.requestShaping bothAxes retune).2.2 ≠
      some (.invalidRequest fault)) ∧
    List.Forall₂ (fun s s' => retune.Spares s.axis → (s.saved = none → s.enable = s) ∧ (s' = s.enable ∨
        s.enable.Refused ∧ s' = s.enable.disable ∧
          ∃ names, (twoCarriages.requestShaping bothAxes retune).2.2 = some (.shaperConfig names) ∧ s.name ∈ names))
      bothAxes (twoCarriages.requestShaping bothAxes retune).2.1 := by
  have hplanar : Planar bothAxes := by
    unfold Planar
    decide +kernel
  have hnone : (twoCarriages.requestShaping bothAxes retune).2.2 = none :=
    Option.isNone_iff_eq_none.1 (by decide +kernel)
  have hvalid : ∀ fault, (twoCarriages.requestShaping bothAxes retune).2.2 ≠ some (.invalidRequest fault) := by
    intro fault
    rw [hnone]
    exact nofun
  exact ⟨hplanar, hvalid, (requests_spare twoCarriages retune hplanar).2.1 hvalid⟩

theorem ofEntries?_bothAxes : ∀ s ∈ bothAxes, AxisShaper.ofEntries? s.axis [.zv] [50] [0] = .ok s := by
  intro s hs
  obtain ⟨axis, haxis, rfl⟩ := List.mem_map.1 hs
  have hsupported : ¬ (axis ≠ 'x' ∧ axis ≠ 'y') := by
    simp only [List.mem_cons, List.not_mem_nil, or_false] at haxis
    rcases haxis with rfl | rfl <;> decide
  have hfreq : checkFreq (50 : ℚ) = .ok () := if_pos (by decide +kernel)
  have hdamping : checkDamping (0 : ℚ) = .ok () := if_pos (by decide +kernel)
  unfold AxisShaper.ofEntries?
  rw [if_neg hsupported]
  exact bind_eq_ok.2 ⟨(), bind_eq_ok.2 ⟨(), hfreq, rfl⟩, bind_eq_ok.2 ⟨(), bind_eq_ok.2 ⟨(), hdamping, rfl⟩, rfl⟩⟩

/-- A shaper of the second axis that has been switched off is switched on by a request for the first axis. -/
theorem not_requests_spare : ¬ ∀ (g : StepGenerator ℚ) (shapers : List (AxisShaper ℚ)) (r : ShaperRequest ℚ),
    (∀ s ∈ shapers, ∃ kinds freqs dampings, AxisShaper.ofEntries? s.axis kinds freqs dampings = .ok s) →
    (∀ fault, (g.requestShaping (shapers.map AxisShaper.disable) r).2.2 ≠ some (.invalidRequest fault)) →
      List.Forall₂ (fun s s' => r.Spares s.axis → s'.isShaping = s.isShaping) (shapers.map AxisShaper.disable)
        (g.requestShaping (shapers.map AxisShaper.disable) r).2.1 := by
  intro h
  have hnone : (empty.requestShaping (bothAxes.map AxisShaper.disable) retune).2.2 = none :=
    Option.isNone_iff_eq_none.1 (by decide +kernel)
  have hspared := h empty bothAxes retune (fun s hs => ⟨_, _, _, ofEntries?_bothAxes s hs⟩) fun fault => by
    rw [hnone]
    exact nofun
  have hon : (empty.requestShaping (bothAxes.map AxisShaper.disable) retune).2.1.map AxisShaper.isShaping =
    [true, true] := by decide +kernel
  generalize (empty.requestShaping (bothAxes.map AxisShaper.disable) retune).2.1 = left at hspared hon
  obtain ⟨x, y, rfl⟩ := List.length_eq_two.1 ((List.length_map ..).symm.trans (congrArg List.length hon))
  obtain ⟨-, hy⟩ := List.cons_eq_cons.1 hon
  cases hspared with
  | cons _ hrest =>
    cases hrest with
    | cons hsame _ =>
      have hoff := hsame ⟨rfl, rfl, rfl⟩
      rw [(List.cons_eq_cons.1 hy).1] at hoff
      exact absurd hoff (by decide +kernel)

end StepGenerator

end PrinterMotion
