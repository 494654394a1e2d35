/-
How far a model sees. The position of a stepper depends on the row of a cursor only through readings of
gauges between the moments that the windows of the model reach back and ahead to. So two rows that show
the same there give the same position, wherever they are cut into segments, and whatever else they play.
-/
import PrinterMotion.Proofs.Kinematics.Window
import PrinterMotion.Kinematics.Model

namespace PrinterMotion

variable {F : Type} [Exact F]

/-! ## Rows that show the same -/

/-- The gauge that shows something of the point a motion has reached, or of the place of a stand. -/
def Gauge.point (f : Coord F → F) (g : Segment F → F → F)
    (h : ∀ (s d t : F) (p : Coord F), g (.hold s d p) t = f p) : Gauge F where
  rest p _ := f p
  inside _ s t := g s t
  step _ _ := 0
  inside_hold s d t p := h s d t p
  step_hold _ _ _ := rfl
  inside_sub_step _ _ _ _ := rfl

/-- The gauge of one component of the point. -/
def Gauge.axis (i : Axis) : Gauge F :=
  point (·.get i) (·.axisAt i) fun s d t p => by
    cases i <;> simp [Segment.axisAt, Segment.distanceAt, Segment.hold, Coord.origin, Coord.get]

/-- Between two moments all gauges show the same off two rows, up to a constant for those to which
motions add something. -/
def Alike (lo hi : F) (a a' : Stand F) (row row' : List (Segment F)) : Prop :=
  ∀ γ : Gauge F, ∃ k, ((∀ p s, γ.step p s = 0) → k = 0) ∧ ∀ (side : Side) (x : F), lo < x →
    side.Before x hi → γ.read side a'.place row' x = k + γ.read side a.place row x

/-- The rows of two cursors at the same moment, which show the same from `lo` to `hi`. -/
structure Together (lo hi : F) (c c' : Cursor F) (a a' : Stand F) (t t' x : F) : Prop where
  left : c.At a .left t x
  right : c'.At a' .left t' x
  left_queued : 0 ≤ c.index
  right_queued : 0 ≤ c'.index
  alike : Alike lo hi a a' c.segments.toList c'.segments.toList

variable {c c' : Cursor F} {a a' : Stand F} {t t' x lo hi : F}

@[simp] theorem Cursor.current_withCurrent (c : Cursor F) (s : Segment F) : (c.withCurrent s).current = s := by
  simp [current, withCurrent]

theorem Cursor.At.point_eq {side : Side} (h : c.At a side t x) {f : Coord F → F} {g : Segment F → F → F}
    (hold : ∀ (s d t : F) (p : Coord F), g (.hold s d p) t = f p) :
    (Gauge.point f g hold).read side a.place c.segments.toList x = g c.current t := by
  rw [h.read_eq, Gauge.passed_of_step_zero fun _ _ => rfl, zero_add, h.steady.current_eq]
  rfl

namespace Together

/-- What is shown of the point at the moment itself. -/
theorem point_eq (h : Together lo hi c c' a a' t t' x) (hlo : lo < x) (hhi : x ≤ hi) {f : Coord F → F}
    {g : Segment F → F → F} (hold : ∀ (s d t : F) (p : Coord F), g (.hold s d p) t = f p) :
    g c.current t = g c'.current t' := by
  obtain ⟨k, hk, hread⟩ := h.alike (Gauge.point f g hold)
  have := hread .left x hlo hhi
  rw [hk fun _ _ => rfl, zero_add, h.left.point_eq, h.right.point_eq] at this
  exact this.symm

/-- The point at another moment. -/
theorem axisAt_eq (h : Together lo hi c c' a a' t t' x) (i : Axis) {o : F} (hlo : lo < x + o) (hx : x ≤ hi)
    (hhi : x + o ≤ hi) : c.axisAt i (t + o) = c'.axisAt i (t' + o) := by
  obtain ⟨k, hk, hread⟩ := h.alike (Gauge.axis i)
  rw [hk fun _ _ => rfl] at hread
  have hcoord : ∀ (c : Cursor F) (u : F), c.axisAt i u = (c.seek u).1.current.axisAt i (c.seek u).2 :=
    fun c u => Segment.get_coordAt _ i _
  rw [hcoord, hcoord]
  rcases lt_or_ge o 0 with ho | ho
  · obtain ⟨hl, hlsegs⟩ := h.left.seek_back ho
    obtain ⟨hr, hrsegs⟩ := h.right.seek_back ho
    have := hread .right (x + o) hlo (by rw [Side.before_right]; linarith)
    rw [← hlsegs, ← hrsegs, Gauge.axis, zero_add, hl.point_eq, hr.point_eq] at this
    exact this.symm
  · obtain ⟨hl, hlsegs⟩ := h.left.seek_ahead ho
    obtain ⟨hr, hrsegs⟩ := h.right.seek_ahead ho
    have := hread .left (x + o) hlo hhi
    rw [← hlsegs, ← hrsegs, Gauge.axis, zero_add, hl.point_eq, hr.point_eq] at this
    exact this.symm

/-- The integral that pressure advance takes between two moments. -/
theorem total_sub (h : Together lo hi c c' a a' t t' x) (pa : PressureAdvance F) (home pivot : F) {u v : F}
    (hu : lo < u) (hu' : u ≤ hi) (hv : lo < v) (hv' : v ≤ hi) :
    pa.total c' a' home pivot v - pa.total c' a' home pivot u =
      pa.total c a home pivot v - pa.total c a home pivot u := by
  obtain ⟨k, -, hread⟩ := h.alike (pa.gauge home pivot)
  simp only [PressureAdvance.total]
  rw [hread .left u hu hu', hread .left v hv hv']
  ring

end Together

/-! ## Pulse trains -/

namespace PulseTrain

/-- Pulses do not go back in time. -/
def Ascending (train : PulseTrain F) : Prop := train.Pairwise fun p q => p.time ≤ q.time

instance (train : PulseTrain F) : Decidable train.Ascending :=
  inferInstanceAs (Decidable (train.Pairwise fun p q => p.time ≤ q.time))

theorem Ascending.bounds {train : PulseTrain F} (h : train.Ascending) :
    ∀ p ∈ train, -train.lookBehind ≤ p.time ∧ p.time ≤ train.lookAhead := by
  intro p hp
  constructor
  · cases train with
    | nil => cases hp
    | cons first rest =>
      simp only [lookBehind, List.head?_cons, neg_neg]
      rcases List.mem_cons.1 hp with rfl | hp
      · exact le_refl _
      · exact (List.pairwise_cons.1 h).1 p hp
  · obtain ⟨init, last, rfl⟩ : ∃ init last, train = init ++ [last] :=
      ⟨_, _, (List.dropLast_append_getLast (List.ne_nil_of_mem hp)).symm⟩
    simp only [lookAhead, List.getLast?_append, List.getLast?_singleton, Option.some_or]
    rcases List.mem_append.1 hp with hp | hp
    · exact (List.pairwise_append.1 h).2.2 p hp last (List.mem_singleton_self _)
    · rw [List.mem_singleton.1 hp]

end PulseTrain

/-! ## Shaping -/

namespace Shaping

/-- The windows cover the pulses of the axes that move the wrapped model. -/
theorem windows_cover {s : Shaping F} {axes : AxisSet} {i : Axis} {train : PulseTrain F} (hi : axes.has i = true)
    (hs : s.pulses? i = some train) (hne : train.isEmpty = false) :
    train.lookAhead ≤ (s.windows axes).1 ∧ train.lookBehind ≤ (s.windows axes).2 := by
  cases i with
  | z => cases hs
  | x =>
    obtain rfl : s.x = train := Option.some.inj hs
    have hx : axes.x = true := hi
    simp only [windows, hx, hne, Bool.not_false, Bool.and_self, if_true, Scalar.max_eq]
    split
    · exact ⟨le_max_of_le_left (le_max_right _ _), le_max_of_le_left (le_max_right _ _)⟩
    · exact ⟨le_max_right _ _, le_max_right _ _⟩
  | y =>
    obtain rfl : s.y = train := Option.some.inj hs
    have hy : axes.y = true := hi
    simp only [windows, hy, hne, Bool.not_false, Bool.and_self, if_true, Scalar.max_eq]
    exact ⟨le_max_right _ _, le_max_right _ _⟩

theorem windows_nonneg (s : Shaping F) (axes : AxisSet) : 0 ≤ (s.windows axes).1 ∧ 0 ≤ (s.windows axes).2 := by
  simp only [windows, Scalar.max_eq, Scalar.zero_literal]
  split <;> split <;> simp

/-- A shaped axis stands at its shaped position, and the others move as they did. -/
theorem axisAt_apply (s : Shaping F) (c : Cursor F) (i : Axis) (t : F) : (s.apply c t).axisAt i t =
    match s.pulses? i with
    | some train => if train.isEmpty then c.current.axisAt i t else train.shape c i t
    | none => c.current.axisAt i t := by
  unfold apply
  cases i <;> simp only [pulses?] <;> split <;> split <;> simp_all [Segment.axisAt, Coord.get, Segment.distanceAt]

/-- Points that are the same here, and as far around as pulses reach, give the same shaped point. -/
theorem axisAt_apply_congr {s : Shaping F} {axes : AxisSet} (hs : s.x.Ascending ∧ s.y.Ascending) {i : Axis}
    (hmoves : axes.has i = true) {c c' : Cursor F} {t t' : F}
    (hhere : c.current.axisAt i t = c'.current.axisAt i t')
    (haround : ∀ o, -(s.windows axes).2 ≤ o → o ≤ (s.windows axes).1 → c.axisAt i (t + o) = c'.axisAt i (t' + o)) :
    (s.apply c t).axisAt i t = (s.apply c' t').axisAt i t' := by
  rw [axisAt_apply, axisAt_apply]
  cases htrain : s.pulses? i with
  | none => exact hhere
  | some train =>
    have hasc : train.Ascending := by
      cases i <;> cases htrain
      · exact hs.1
      · exact hs.2
    cases hne : train.isEmpty with
    | true =>
      simp only [hne, if_true]
      exact hhere
    | false =>
      simp only [hne, Bool.false_eq_true, if_false]
      -- No pulse looks further than the windows.
      obtain ⟨hahead, hbehind⟩ := windows_cover hmoves htrain hne
      refine congrArg Scalar.sum (List.map_congr_left fun p hp => ?_)
      obtain ⟨hlow, hhigh⟩ := hasc.bounds p hp
      rw [haround p.time (by linarith) (by linarith)]

end Shaping

namespace Together

/-- Rows that show the same in the window of pressure advance give an extruder the same position. -/
theorem extruder_eq {pa : PressureAdvance F}
    (h : Together lo hi c c' a a' t t' x) (hs : 0 ≤ pa.halfSmooth) (hlo : lo < x - pa.halfSmooth)
    (hhi : x + pa.halfSmooth ≤ hi) : pa.position c t = pa.position c' t' := by
  have hsame := h.total_sub pa c.queued.position.x
  have hxlo : lo < x := by linarith
  have hxhi : x ≤ hi := by linarith
  simp only [PressureAdvance.position, Scalar.zero_literal, beq_iff_eq]
  split
  · exact h.point_eq hxlo hxhi (f := (·.x)) (g := fun s t => s.position.x + s.distanceAt t) fun s d t p => by
      simp [Segment.hold, Segment.distanceAt]
  · have hhome : c.current.position.x = c'.current.position.x :=
      h.point_eq hxlo hxhi (f := (·.x)) (g := fun s _ => s.position.x) fun _ _ _ _ => rfl
    -- The window is made of differences of integrals, in which what has been passed drops out.
    have hwindow : pa.window c t = pa.window c' t' := by
      rw [h.left.steady.current_eq, h.right.steady.current_eq] at hhome
      rw [pa.window_eq h.left.within h.left_queued hs, pa.window_eq h.right.within h.right_queued hs]
      simp only [← hhome]
      rw [hsame _ hlo (by linarith) hxlo hxhi, hsame _ hxlo hxhi (by linarith) hhi]
    rw [hhome, hwindow]

/-- Rows that show the same around a moment, as far as pulses reach, give the same shaped point. -/
theorem apply_eq {s : Shaping F} {axes : AxisSet}
    (h : Together lo hi c c' a a' t t' x) (hs : s.x.Ascending ∧ s.y.Ascending)
    (hlo : lo < x - (s.windows axes).2) (hhi : x + (s.windows axes).1 ≤ hi) {i : Axis} (hmoves : axes.has i = true) :
    (s.apply c t).axisAt i t = (s.apply c' t').axisAt i t' := by
  obtain ⟨hbefore, hafter⟩ := s.windows_nonneg axes
  have hxlo : lo < x := by linarith
  have haxis : c.current.axisAt i t = c'.current.axisAt i t' :=
    h.point_eq hxlo (by linarith) (f := (·.get i)) (g := (·.axisAt i)) fun s d t p => (Gauge.axis i).inside_hold s d t p
  exact Shaping.axisAt_apply_congr hs hmoves haxis fun o hlow hhigh =>
    h.axisAt_eq i (by linarith) (by linarith) (by linarith)

end Together

/-! ## Models -/

namespace Model

/-- The models whose position is a function of the point that motion has reached. -/
def Pointwise : Model F → Prop
  | linear _ | coreXY _ | coreXZ _ | tower _ | shoulder _ | winch _ => True
  | extruder _ | dualCarriage .. | inputShaper .. => False

/-- The models whose windows cover what they look at: those that look at one point, those with an input
shaper whose pulses are in order, and extruders. -/
def Sighted : Model F → Prop
  | inputShaper s inner => inner.Pointwise ∧ s.x.Ascending ∧ s.y.Ascending
  | extruder pa => 0 ≤ pa.halfSmooth
  | m => m.Pointwise

instance : DecidablePred (Pointwise (F := F))
  | linear _ | coreXY _ | coreXZ _ | tower _ | shoulder _ | winch _ => .isTrue trivial
  | extruder _ | dualCarriage .. | inputShaper .. => .isFalse id

instance : DecidablePred (Sighted (F := F))
  | inputShaper s inner => inferInstanceAs (Decidable (inner.Pointwise ∧ s.x.Ascending ∧ s.y.Ascending))
  | extruder pa => inferInstanceAs (Decidable (0 ≤ pa.halfSmooth))
  | linear _ | coreXY _ | coreXZ _ | tower _ | shoulder _ | winch _ => .isTrue trivial
  | dualCarriage .. => .isFalse id

/-- Only the axes of a model matter to its position. -/
theorem Pointwise.position_eq {m : Model F} (hm : m.Pointwise) {c c' : Cursor F} {t t' : F}
    (h : ∀ i, m.axes.has i = true → c.current.axisAt i t = c'.current.axisAt i t') :
    m.position c t = m.position c' t' := by
  have hcoord : m.axes = .all → c.current.coordAt t = c'.current.coordAt t' := by
    intro hall
    refine Coord.eq_of_get fun i => ?_
    rw [Segment.get_coordAt, Segment.get_coordAt]
    exact h i (by rw [hall]; cases i <;> rfl)
  cases m with
  | linear i => exact h i (by simp [axes])
  | coreXY plus =>
    have hx : (c.current.coordAt t).x = (c'.current.coordAt t').x := h .x rfl
    have hy : (c.current.coordAt t).y = (c'.current.coordAt t').y := h .y rfl
    simp only [position, hx, hy]
  | coreXZ plus =>
    have hx : (c.current.coordAt t).x = (c'.current.coordAt t').x := h .x rfl
    have hz : (c.current.coordAt t).z = (c'.current.coordAt t').z := h .z rfl
    simp only [position, hx, hz]
  | tower _ => simp only [position, hcoord rfl]
  | shoulder _ => simp only [position, hcoord rfl]
  | winch _ => simp only [position, hcoord rfl]
  | extruder _ => exact hm.elim
  | dualCarriage _ _ => exact hm.elim
  | inputShaper _ _ => exact hm.elim

theorem Sighted.windows_nonneg {m : Model F} (hm : m.Sighted) : 0 ≤ m.before ∧ 0 ≤ m.after := by
  cases m with
  | extruder pa => exact ⟨hm, hm⟩
  | inputShaper s inner => exact s.windows_nonneg inner.axes
  | dualCarriage _ _ => exact hm.elim
  | _ => simp [before, after]

theorem windows_le_scanWindow (m : Model F) : m.before ≤ m.scanWindow ∧ m.after ≤ m.scanWindow := by
  rw [scanWindow, Scalar.max_eq]
  exact ⟨le_max_left _ _, le_max_right _ _⟩

/-- Rows that show the same around a moment, as far as the windows of a model reach, give it the same
position. -/
theorem Sighted.position_eq {m : Model F} (hm : m.Sighted) {c c' : Cursor F} {a a' : Stand F} {t t' x lo hi : F}
    (h : Together lo hi c c' a a' t t' x) (hlo : lo < x - m.after) (hhi : x + m.before ≤ hi) :
    m.position c t = m.position c' t' := by
  obtain ⟨hbefore, hafter⟩ := hm.windows_nonneg
  have haxis : ∀ i, c.current.axisAt i t = c'.current.axisAt i t' :=
    fun i => h.point_eq (by linarith) (by linarith) (f := (·.get i)) (g := (·.axisAt i))
      fun s d t p => (Gauge.axis i).inside_hold s d t p
  cases m with
  | extruder pa => exact h.extruder_eq hm hlo hhi
  | inputShaper s inner =>
    obtain ⟨hinner, hs⟩ := hm
    simp only [position]
    split
    · exact hinner.position_eq fun i _ => haxis i
    · refine hinner.position_eq fun i hi => ?_
      rw [Cursor.current_withCurrent, Cursor.current_withCurrent]
      exact h.apply_eq hs hlo hhi hi
  | dualCarriage _ _ => exact hm.elim
  | _ =>
    refine Pointwise.position_eq ?_ fun i _ => haxis i
    exact trivial

end Model

end PrinterMotion
