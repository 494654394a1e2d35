/-
A stepper stands while nothing moves its axes. What a model declares is enough to leave segments out: its
position does not change over times around which, as far as its windows reach, no segment moves along one
of its axes. A carriage leaves out the axes it has parked, and a shaper looks around along the axes that
are left.
-/
import PrinterMotion.Proofs.Kinematics.Sight
import PrinterMotion.Proofs.Motion.Travel

namespace PrinterMotion

variable {F : Type} [Exact F]

theorem AxisSet.get_eq_zero {axes : AxisSet} {d : Coord F} (h : axes.meets d = false) {i : Axis}
    (hi : axes.has i = true) : d.get i = 0 := by
  simp only [meets, Bool.or_eq_false_iff, Bool.and_eq_false_imp, Scalar.zero_literal, bne_eq_false_iff_eq] at h
  obtain ⟨⟨hx, hy⟩, hz⟩ := h
  cases i with
  | x => exact hx hi
  | y => exact hy hi
  | z => exact hz hi

/-! ## Carriages -/

namespace Carriage

/-- The transforms that a carriage can have on a model that moves along the given axes. -/
inductive Made : AxisSet → Carriage F → Prop where
  | identity (axes : AxisSet) : Made axes (identity axes)
  | setTransform {axes : AxisSet} {c c' : Carriage F} (h : Made axes c) (axis : Char) (scale offset : F)
      (hc : c.setTransform axes axis scale offset = .ok c') : Made axes c'
  | rebind {axes : AxisSet} {c : Carriage F} (h : Made axes c) (axes' : AxisSet) : Made axes' (c.rebind axes')

/-- The scale of an axis; the third axis is left as it is. -/
def scale (c : Carriage F) : Axis → F
  | .x => c.xScale
  | .y => c.yScale
  | .z => 1

/-- What an axis is moved by. -/
def offset (c : Carriage F) : Axis → F
  | .x => c.xOffset
  | .y => c.yOffset
  | .z => 0

theorem axisAt_apply (c : Carriage F) (s : Segment F) (i : Axis) (t : F) :
    (c.apply s).axisAt i t = s.axisAt i t * c.scale i + c.offset i := by
  have hdist : (c.apply s).distanceAt t = s.distanceAt t := rfl
  simp only [Segment.axisAt, hdist]
  cases i <;> simp only [apply, Coord.get, scale, offset] <;> ring

/-- Setting the transform of an axis parks it, or lets it move again if it moves the model. -/
theorem has_parked (axes inner : AxisSet) (a b : Axis) (scale : F) :
    (if scale == (0.0 : F) then axes.erase a else if inner.has a then axes.insert a else axes).has b =
      if a = b then !(scale == 0) && (inner.has a || axes.has a) else axes.has b := by
  rw [Scalar.zero_literal]
  by_cases hs : scale = 0
  · by_cases hab : a = b <;> simp [hs, hab]
  · by_cases hab : a = b
    · subst hab
      cases hi : inner.has a <;> simp [hs]
    · cases hi : inner.has a <;> simp [hs, hab]

variable {axes : AxisSet} {c c' : Carriage F}

theorem parked_setTransform {axis : Char} {scale offset : F} (hc : c.setTransform axes axis scale offset = .ok c')
    (h : ∀ i, axes.has i = true → c.axes.has i = false → c.scale i = 0) (i : Axis) (hi : axes.has i = true)
    (hp : c'.axes.has i = false) : c'.scale i = 0 := by
  unfold setTransform at hc
  dsimp only at hc
  split at hc
  · cases hc
    rw [has_parked] at hp
    cases i with
    | x =>
      have hzero : scale = 0 := by simpa [hi] using hp
      exact hzero
    | y => exact h .y hi hp
    | z => exact h .z hi hp
  · split at hc
    · cases hc
      rw [has_parked] at hp
      cases i with
      | x => exact h .x hi hp
      | y =>
        have hzero : scale = 0 := by simpa [hi] using hp
        exact hzero
      | z => exact h .z hi hp
    · cases hc

theorem parked_rebind (c : Carriage F) {i : Axis} (hi : axes.has i = true)
    (hp : (c.rebind axes).axes.has i = false) : (c.rebind axes).scale i = 0 := by
  simp only [rebind, Scalar.zero_literal, beq_iff_eq] at hp ⊢
  cases i <;> simp only [scale] <;> split at hp <;> split at hp <;> simp_all

/-- A carriage leaves out axes of the model alone that it has parked. -/
theorem Made.parked (h : Made axes c) : ∀ i, axes.has i = true → c.axes.has i = false → c.scale i = 0 := by
  induction h with
  | identity axes =>
    intro i hi hp
    rw [Carriage.identity, hi] at hp
    cases hp
  | setTransform h axis scale offset hc ih => exact parked_setTransform hc ih
  | rebind h axes' ih => exact fun i => parked_rebind _

end Carriage

/-! ## Models -/

namespace Model

/-- A model that looks at one point, maybe on a carriage. -/
def Mounted : Model F → Prop
  | dualCarriage c inner => inner.Pointwise ∧ c.Made inner.axes
  | m => m.Pointwise

/-- A mounted model, maybe in an input shaper whose pulses are in order. -/
def Stack : Model F → Prop
  | inputShaper s inner => inner.Mounted ∧ s.x.Ascending ∧ s.y.Ascending
  | m => m.Mounted

variable {m : Model F} {c c' : Cursor F} {t t' : F}

/-- On a carriage too only the axes of a model matter. -/
theorem Mounted.position_eq (hm : m.Mounted)
    (h : ∀ i, m.axes.has i = true → c.current.axisAt i t = c'.current.axisAt i t') :
    m.position c t = m.position c' t' := by
  cases m with
  | dualCarriage carriage inner =>
    obtain ⟨hinner, hmade⟩ := hm
    refine hinner.position_eq fun i hi => ?_
    rw [Cursor.current_withCurrent, Cursor.current_withCurrent, Carriage.axisAt_apply, Carriage.axisAt_apply]
    cases hp : carriage.axes.has i with
    | true => rw [h i hp]
    | false => rw [hmade.parked i hi hp, mul_zero, mul_zero]
  | inputShaper _ _ => exact hm.elim
  | extruder _ => exact hm.elim
  | _ =>
    refine Pointwise.position_eq ?_ h
    exact hm

theorem Pointwise.windows_eq (hm : m.Pointwise) : m.before = 0 ∧ m.after = 0 := by
  cases m with
  | extruder _ => exact hm.elim
  | dualCarriage _ _ => exact hm.elim
  | inputShaper _ _ => exact hm.elim
  | _ => simp [before, after]

theorem Stack.windows_nonneg (hm : m.Stack) : 0 ≤ m.before ∧ 0 ≤ m.after := by
  cases m with
  | inputShaper s inner => exact s.windows_nonneg inner.axes
  | dualCarriage c inner =>
    obtain ⟨hinner, -⟩ := hm
    obtain ⟨hbefore, hafter⟩ := hinner.windows_eq
    exact ⟨hbefore.ge, hafter.ge⟩
  | extruder _ => exact hm.elim
  | _ => simp [before, after]

/-- What a stack looks at: the point at the moment, and around it as far as its windows reach. -/
theorem Stack.position_eq (hm : m.Stack)
    (hhere : ∀ i, m.axes.has i = true → c.current.axisAt i t = c'.current.axisAt i t')
    (haround : ∀ i, m.axes.has i = true → ∀ o, -m.after ≤ o → o ≤ m.before →
      c.axisAt i (t + o) = c'.axisAt i (t' + o)) :
    m.position c t = m.position c' t' := by
  cases m with
  | inputShaper s inner =>
    obtain ⟨hinner, hs⟩ := hm
    simp only [position]
    split
    · exact hinner.position_eq hhere
    · refine hinner.position_eq fun i hi => ?_
      rw [Cursor.current_withCurrent, Cursor.current_withCurrent]
      exact Shaping.axisAt_apply_congr hs hi (hhere i hi) (haround i hi)
  | extruder _ => exact hm.elim
  | _ => exact Mounted.position_eq hm hhere

/-- A stepper stands from one time to another if no segment that its windows reach from there moves one of
its axes, whichever segment that contains a time its position is taken from. -/
theorem Stack.position_rests (hm : m.Stack) {q : Queue F} (hq : Contiguous q.active)
    (hu : Unbroken q.active.toList) {lo hi : F} (hrest : ∀ s ∈ q.active, s.start < hi + m.before →
      lo - m.after < s.finish → m.axes.meets s.direction = false)
    {i j : Nat} (hc : q.cursor? i = some c) (hc' : q.cursor? j = some c')
    (ht : 0 ≤ t ∧ t ≤ c.current.duration) (ht' : 0 ≤ t' ∧ t' ≤ c'.current.duration)
    (hx : lo ≤ c.current.start + t ∧ c.current.start + t ≤ hi)
    (hx' : lo ≤ c'.current.start + t' ∧ c'.current.start + t' ≤ hi) :
    m.position c t = m.position c' t' := by
  obtain ⟨hbefore, hafter⟩ := hm.windows_nonneg
  obtain ⟨first, hfirst⟩ : ∃ first, q.active.toList.head? = some first := by
    cases hrow : q.active.toList with
    | nil => simp [Queue.cursor?, Cursor.at?, Array.toList_eq_nil_iff.1 hrow] at hc
    | cons first _ => exact ⟨first, rfl⟩
  obtain ⟨hsegs, hw⟩ := hq.within hfirst hc ht.1 ht.2
  obtain ⟨hsegs', hw'⟩ := hq.within hfirst hc' ht'.1 ht'.2
  have hcu : Unbroken c.segments.toList := by rwa [hsegs]
  have hcu' : Unbroken c'.segments.toList := by rwa [hsegs']
  -- Along an axis of the model nothing is travelled, as far as the windows reach.
  have htravel : ∀ i, m.axes.has i = true → ∀ x y, lo - m.after ≤ x ∧ x ≤ hi + m.before →
      lo - m.after ≤ y ∧ y ≤ hi + m.before →
      (Gauge.travel i).read .left first.position q.active.toList x =
        (Gauge.travel i).read .left first.position q.active.toList y :=
    fun i hi x y hx hy => Gauge.travel_eq hx hy first.position (hq.joined hfirst) fun s hs hlate hearly =>
      AxisSet.get_eq_zero (hrest s (Array.mem_toList_iff.1 hs) hlate hearly) hi
  refine hm.position_eq (fun i hi => ?_) fun i hi o hlo hhi => ?_
  · rw [hw.axisAt_eq hcu, hw'.axisAt_eq hcu', hsegs, hsegs']
    congr 1
    exact htravel i hi _ _ ⟨by linarith, by linarith⟩ ⟨by linarith, by linarith⟩
  · rw [hw.steady.seek_axisAt_eq hcu, hw'.steady.seek_axisAt_eq hcu', hsegs, hsegs', ← hw.steady.current_eq,
      ← hw'.steady.current_eq]
    congr 1
    exact htravel i hi _ _ ⟨by linarith, by linarith⟩ ⟨by linarith, by linarith⟩

/-- A carriage that has parked its second axis. -/
def parkedY : Carriage ℚ := ⟨2, 1, 0, 3, ⟨true, false, false⟩⟩

/-- A belt on that carriage, with pulses on the first axis. -/
def parkedBelt : Model ℚ := inputShaper ⟨[⟨-1, 1 / 2⟩, ⟨1, 1 / 2⟩], []⟩ (dualCarriage parkedY (coreXY true))

/-- A move along the second axis from 1 s to 3 s, and one along the first from 4 s to 5 s. -/
def yThenX : Queue ℚ :=
  (Queue.empty.addAll [⟨1, 2, 1, 0, ⟨0, 0, 0⟩, ⟨0, 1, 0⟩, .cruise⟩, ⟨4, 1, 1, 0, ⟨0, 2, 0⟩, ⟨1, 0, 0⟩, .cruise⟩]).1

theorem parkedBelt_stack : parkedBelt.Stack := by
  have hx : (Carriage.identity .xy).setTransform .xy 'x' (2 : ℚ) 1 = .ok ⟨2, 1, 1, 0, .xy⟩ := by
    simp [Carriage.setTransform, Carriage.identity, AxisSet.xy, AxisSet.has, AxisSet.insert]
  have hy : Carriage.setTransform ⟨2, 1, 1, 0, .xy⟩ .xy 'y' (0 : ℚ) 3 = .ok parkedY := by
    simp [Carriage.setTransform, parkedY, AxisSet.xy, AxisSet.erase]
  exact ⟨⟨trivial, .setTransform (.setTransform (.identity .xy) 'x' 2 1 hx) 'y' 0 3 hy⟩, by decide +kernel,
    by decide +kernel⟩

theorem parkedBelt_rests : ∃ c c', yThenX.cursor? 1 = some c ∧ yThenX.cursor? 2 = some c' ∧
    parkedBelt.position c 1 = parkedBelt.position c' 0 := by
  have hq : Contiguous yThenX.active := Joined.contiguous (a := ⟨⟨0, 0, 0⟩, 0⟩) (by decide +kernel)
  have hrest : ∀ s ∈ yThenX.active, s.start < 3 + parkedBelt.before →
      2 - parkedBelt.after < s.finish → parkedBelt.axes.meets s.direction = false := by decide +kernel
  have hc : yThenX.cursor? 1 = some ⟨yThenX.active, by decide +kernel, 1, none⟩ := dif_pos (by decide +kernel)
  have hc' : yThenX.cursor? 2 = some ⟨yThenX.active, by decide +kernel, 2, none⟩ := dif_pos (by decide +kernel)
  refine ⟨_, _, hc, hc', parkedBelt_stack.position_rests hq (by decide +kernel) hrest hc hc' ?_ ?_ ?_ ?_⟩ <;>
    decide +kernel

end Model

end PrinterMotion
