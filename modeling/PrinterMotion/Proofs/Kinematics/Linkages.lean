/-
Linkages in real arithmetic. The carriage of a tower holds one end of an arm and the elbow of a shoulder one
end of a lower arm, and the toolhead holds the other end. Where the linkage reaches the toolhead at all, the
position of the stepper puts carriage or elbow exactly as far from it as the arm is long.

A shoulder is turned around the vertical axis. The frame that goes with it keeps distances, and there the
elbow moves on a circle around the origin, on which the law of cosines finds it.
-/
import Mathlib.Analysis.InnerProductSpace.PiL2
import Mathlib.Analysis.SpecialFunctions.Complex.Arg
import PrinterMotion.Kinematics.Model
import PrinterMotion.Proofs.Exact

namespace PrinterMotion

/-! ## Distances -/

namespace Coord

/-- The straight distance of two points. -/
noncomputable def distance (a b : Coord ℝ) : ℝ := √((a.x - b.x) ^ 2 + (a.y - b.y) ^ 2 + (a.z - b.z) ^ 2)

/-- It is the distance of Euclidean space. -/
theorem distance_eq_dist (a b : Coord ℝ) :
    a.distance b = dist (!₂[a.x, a.y, a.z] : EuclideanSpace ℝ (Fin 3)) !₂[b.x, b.y, b.z] := by
  simp [distance, EuclideanSpace.dist_eq, Fin.sum_univ_three, Real.dist_eq, sq_abs]

theorem distance_nonneg (a b : Coord ℝ) : 0 ≤ a.distance b := by
  rw [distance_eq_dist]
  exact dist_nonneg

theorem distance_eq_iff {a b : Coord ℝ} {r : ℝ} (hr : 0 ≤ r) : a.distance b = r ↔
    (a.x - b.x) ^ 2 + (a.y - b.y) ^ 2 + (a.z - b.z) ^ 2 = r ^ 2 := by
  rw [distance, Real.sqrt_eq_iff_eq_sq (by positivity) hr]

end Coord

/-! ## Towers -/

namespace Tower

variable {arm x y : ℝ} {t : Tower ℝ}

theorem of?_eq_ok : of? arm x y = .ok t ↔ 0 < arm ∧ t = ⟨arm * arm, x, y⟩ := by
  rw [of?, Scalar.zero_literal]
  split
  · simp [*, eq_comm]
  · simp [*]

theorem heightSquare_eq (h : of? arm x y = .ok t) (c : Coord ℝ) :
    t.heightSquare c = arm ^ 2 - (x - c.x) ^ 2 - (y - c.y) ^ 2 := by
  obtain ⟨-, rfl⟩ := of?_eq_ok.1 h
  simp only [heightSquare]
  ring

theorem distance_eq_arm_iff (h : of? arm x y = .ok t) (c : Coord ℝ) (z : ℝ) :
    Coord.distance ⟨x, y, z⟩ c = arm ↔ (z - c.z) ^ 2 = t.heightSquare c := by
  rw [Coord.distance_eq_iff (of?_eq_ok.1 h).1.le, heightSquare_eq h]
  constructor <;> intro hz <;> linarith

theorem reaches_iff (c : Coord ℝ) : t.reaches c = true ↔ 0 ≤ t.heightSquare c := by
  rw [reaches, decide_eq_true_iff, Scalar.zero_literal]

theorem height_sub_sq {c : Coord ℝ} (hc : t.reaches c = true) : (t.height c - c.z) ^ 2 = t.heightSquare c := by
  rw [height, add_sub_cancel_right]
  exact Real.sq_sqrt ((reaches_iff c).1 hc)

/-- The tower reaches the points that the arm reaches from some height. -/
theorem reaches_iff_exists (h : of? arm x y = .ok t) (c : Coord ℝ) :
    t.reaches c = true ↔ ∃ z, Coord.distance ⟨x, y, z⟩ c = arm := by
  simp only [distance_eq_arm_iff h]
  constructor
  · exact fun hc => ⟨t.height c, height_sub_sq hc⟩
  · rintro ⟨z, hz⟩
    rw [reaches_iff, ← hz]
    positivity

end Tower

/-! ## Shoulders -/

namespace Shoulder

/-- The joint of a shoulder. -/
noncomputable def joint (radius height bearing : ℝ) : Coord ℝ :=
  ⟨radius * Real.cos bearing, radius * Real.sin bearing, height⟩

/-- The elbow of an upper arm that is turned up from the horizontal by an angle, in the vertical plane of
its shoulder. -/
noncomputable def elbow (radius height bearing upper angle : ℝ) : Coord ℝ :=
  ⟨(radius + upper * Real.cos angle) * Real.cos bearing, (radius + upper * Real.cos angle) * Real.sin bearing,
    height + upper * Real.sin angle⟩

/-- The projection of a point onto the vertical plane at a bearing. -/
noncomputable def inPlane (bearing : ℝ) (c : Coord ℝ) : Coord ℝ :=
  let out := c.x * Real.cos bearing + c.y * Real.sin bearing
  ⟨out * Real.cos bearing, out * Real.sin bearing, c.z⟩

variable {radius height bearing upper lower : ℝ} {s : Shoulder ℝ}

theorem of?_eq_ok : of? radius height bearing upper lower = .ok s ↔ (0 < upper ∧ 0 < lower) ∧
    s = ⟨Real.cos bearing, Real.sin bearing, radius, height, upper, upper * upper, lower * lower⟩ := by
  rw [of?, Scalar.zero_literal]
  split
  · rename_i harms
    rw [and_iff_right harms]
    exact ⟨fun h => (Except.ok.inj h).symm, fun h => congrArg _ h.symm⟩
  · simp [*]

/-! ### The frame -/

/-- The frame of a shoulder keeps distances. -/
theorem distance_frame (h : of? radius height bearing upper lower = .ok s) (a b : Coord ℝ) :
    (s.frame a).distance (s.frame b) = a.distance b := by
  obtain ⟨-, rfl⟩ := of?_eq_ok.1 h
  have hnonneg := Coord.distance_nonneg a b
  rw [Coord.distance_eq_iff hnonneg, ← (Coord.distance_eq_iff hnonneg).1 rfl]
  simp only [frame]
  linear_combination ((a.x - b.x) ^ 2 + (a.y - b.y) ^ 2) * Real.cos_sq_add_sin_sq bearing

theorem frame_joint (h : of? radius height bearing upper lower = .ok s) :
    s.frame (joint radius height bearing) = ⟨0, 0, 0⟩ := by
  obtain ⟨-, rfl⟩ := of?_eq_ok.1 h
  have hcircle := Real.cos_sq_add_sin_sq bearing
  simp only [frame, joint, Coord.mk.injEq]
  refine ⟨?_, by ring, by ring⟩
  linear_combination radius * hcircle

theorem frame_elbow (h : of? radius height bearing upper lower = .ok s) (angle : ℝ) :
    s.frame (elbow radius height bearing upper angle) = ⟨upper * Real.cos angle, 0, upper * Real.sin angle⟩ := by
  obtain ⟨-, rfl⟩ := of?_eq_ok.1 h
  have hcircle := Real.cos_sq_add_sin_sq bearing
  simp only [frame, elbow, Coord.mk.injEq]
  refine ⟨?_, by ring, by ring⟩
  linear_combination (radius + upper * Real.cos angle) * hcircle

/-- The upper arm has its length. -/
theorem distance_elbow_joint (h : of? radius height bearing upper lower = .ok s) (angle : ℝ) :
    (elbow radius height bearing upper angle).distance (joint radius height bearing) = upper := by
  rw [← distance_frame h, frame_elbow h, frame_joint h, Coord.distance_eq_iff (of?_eq_ok.1 h).1.1.le]
  linear_combination upper ^ 2 * Real.cos_sq_add_sin_sq angle

/-! ### The elbow -/

/-- How far a point of the frame is from the origin in the plane of the upper arm. -/
noncomputable def span (p : Coord ℝ) : ℝ := √(p.x * p.x + p.z * p.z)

theorem span_eq_norm (p : Coord ℝ) : span p = ‖(⟨p.x, p.z⟩ : ℂ)‖ := by
  rw [span, Complex.norm_def, Complex.normSq_mk]

theorem span_pos (h : of? radius height bearing upper lower = .ok s) {c : Coord ℝ}
    (hc : inPlane bearing c ≠ joint radius height bearing) : 0 < span (s.frame c) := by
  rw [span_eq_norm, norm_pos_iff]
  intro hzero
  apply hc
  obtain ⟨-, rfl⟩ := of?_eq_ok.1 h
  obtain ⟨hout, hup⟩ := Complex.ext_iff.1 hzero
  rw [inPlane, joint, sub_eq_zero.1 hout, sub_eq_zero.1 hup]

/-- A point in the plane of the upper arm, by its distance from the origin and its direction. -/
theorem mul_cos_add_mul_sin (p : Coord ℝ) (angle : ℝ) :
    p.x * Real.cos angle + p.z * Real.sin angle = span p * Real.cos (angle - Scalar.atan2 p.z p.x) := by
  have hdir : Scalar.atan2 p.z p.x = Complex.arg ⟨p.x, p.z⟩ := rfl
  have hx : ‖(⟨p.x, p.z⟩ : ℂ)‖ * Real.cos (Complex.arg ⟨p.x, p.z⟩) = p.x := Complex.norm_mul_cos_arg _
  have hz : ‖(⟨p.x, p.z⟩ : ℂ)‖ * Real.sin (Complex.arg ⟨p.x, p.z⟩) = p.z := Complex.norm_mul_sin_arg _
  rw [hdir, span_eq_norm, Real.cos_sub]
  linear_combination (-Real.cos angle) * hx - Real.sin angle * hz

theorem elbowCosine_eq (h : of? radius height bearing upper lower = .ok s) (p : Coord ℝ) :
    s.elbowCosine p =
      (upper ^ 2 - lower ^ 2 + (p.x ^ 2 + p.y ^ 2 + p.z ^ 2)) / (2 * span p * upper) := by
  obtain ⟨-, rfl⟩ := of?_eq_ok.1 h
  have htwo : (2.0 : ℝ) = 2 := by norm_num
  have hspan : Scalar.sqrt (p.x * p.x + p.z * p.z) = span p := rfl
  simp only [elbowCosine, htwo, hspan]
  ring

/-- The angle of the upper arm is off the direction of the point by the angle of the elbow cosine. -/
theorem cos_angle_sub {c : Coord ℝ} (hc : s.elbowCosine (s.frame c) ∈ Set.Icc (-1) 1) :
    Real.cos (s.angle c - Scalar.atan2 (s.frame c).z (s.frame c).x) = s.elbowCosine (s.frame c) := by
  rw [angle, add_sub_cancel_left]
  exact Real.cos_arccos hc.1 hc.2

/-- The law of cosines: the lower arm has its length where the cosine of the angle between the upper arm
and the direction of the point is the elbow cosine. -/
theorem distance_elbow_eq_lower_iff (h : of? radius height bearing upper lower = .ok s) {c : Coord ℝ}
    (hc : inPlane bearing c ≠ joint radius height bearing) (angle : ℝ) :
    (elbow radius height bearing upper angle).distance c = lower ↔
      Real.cos (angle - Scalar.atan2 (s.frame c).z (s.frame c).x) = s.elbowCosine (s.frame c) := by
  have hspan := span_pos h hc
  have hpolar := mul_cos_add_mul_sin (s.frame c) angle
  have hcircle := Real.cos_sq_add_sin_sq angle
  obtain ⟨⟨hupper, hlower⟩, hs⟩ := of?_eq_ok.1 h
  rw [elbowCosine_eq h, eq_div_iff (by positivity), ← distance_frame h, frame_elbow h,
    Coord.distance_eq_iff hlower.le]
  constructor <;> intro heq <;> linear_combination upper ^ 2 * hcircle - 2 * upper * hpolar - heq

/-- The shoulder reaches the points that the lower arm reaches from some angle of the upper arm. -/
theorem elbowCosine_mem_iff_exists (h : of? radius height bearing upper lower = .ok s) {c : Coord ℝ}
    (hc : inPlane bearing c ≠ joint radius height bearing) :
    s.elbowCosine (s.frame c) ∈ Set.Icc (-1) 1 ↔
      ∃ angle, (elbow radius height bearing upper angle).distance c = lower := by
  simp only [distance_elbow_eq_lower_iff h hc]
  constructor
  · intro hmem
    exact ⟨s.angle c, cos_angle_sub hmem⟩
  · rintro ⟨angle, hangle⟩
    rw [← hangle]
    exact Real.cos_mem_Icc _

end Shoulder

/-! ## Positions -/

namespace Model

/-- Arms keep their lengths, wherever the toolhead is on its way. If the arm of a tower reaches it from some
height, which the square of the height decides, then the arm reaches it from the position of the tower. And
unless it lies beside the joint of a shoulder, straight across the plane of the upper arm, if the lower arm
reaches it from some angle, which the elbow cosine decides, then it does from the position of the shoulder. -/
theorem arms_keep_length :
    (∀ (arm x y : ℝ) (t : Tower ℝ), Tower.of? arm x y = .ok t → ∀ (cursor : Cursor ℝ) (time : ℝ),
      let c := cursor.current.coordAt time
      (t.reaches c = true ↔ ∃ z, Coord.distance ⟨x, y, z⟩ c = arm) ∧
      (t.reaches c = true → Coord.distance ⟨x, y, (tower t).position cursor time⟩ c = arm)) ∧
    ∀ (radius height bearing upper lower : ℝ) (s : Shoulder ℝ),
      Shoulder.of? radius height bearing upper lower = .ok s → ∀ (cursor : Cursor ℝ) (time : ℝ),
      let c := cursor.current.coordAt time
      let joint := Shoulder.joint radius height bearing
      let elbow := Shoulder.elbow radius height bearing upper
      Shoulder.inPlane bearing c ≠ joint →
      (s.elbowCosine (s.frame c) ∈ Set.Icc (-1) 1 ↔ ∃ angle, (elbow angle).distance c = lower) ∧
      (s.elbowCosine (s.frame c) ∈ Set.Icc (-1) 1 →
        (elbow ((shoulder s).position cursor time)).distance joint = upper ∧
        (elbow ((shoulder s).position cursor time)).distance c = lower) := by
  constructor
  · intro arm x y t h cursor time c
    refine ⟨Tower.reaches_iff_exists h c, fun hc => ?_⟩
    exact (Tower.distance_eq_arm_iff h c _).2 (Tower.height_sub_sq hc)
  · intro radius height bearing upper lower s h cursor time c joint elbow hc
    refine ⟨Shoulder.elbowCosine_mem_iff_exists h hc, fun hmem => ⟨Shoulder.distance_elbow_joint h _, ?_⟩⟩
    exact (Shoulder.distance_elbow_eq_lower_iff h hc _).2 (Shoulder.cos_angle_sub hmem)

/-- One second on its way along the first axis, a tower and a shoulder that points backwards, with the point
off the plane of the upper arm. -/
theorem arms_keep_length_crossing :
    let crossing : Segment ℝ := ⟨0, 2, 1, 0, ⟨-6, -1, 6⟩, ⟨1, 0, 0⟩, .cruise⟩
    ∃ t s, Tower.of? 10 (-5) 7 = .ok t ∧ Shoulder.of? 2 10 Real.pi 5 6 = .ok s ∧
      Coord.distance ⟨-5, 7, (tower t).position (.single crossing) 1⟩ ⟨-5, -1, 6⟩ = 10 ∧
      (Shoulder.elbow 2 10 Real.pi 5 ((shoulder s).position (.single crossing) 1)).distance ⟨-5, -1, 6⟩ = 6 := by
  intro crossing
  obtain ⟨htower, hshoulder⟩ := arms_keep_length
  have ht : Tower.of? (10 : ℝ) (-5) 7 = .ok ⟨10 * 10, -5, 7⟩ := Tower.of?_eq_ok.2 ⟨by norm_num, rfl⟩
  have hs : Shoulder.of? (2 : ℝ) 10 Real.pi 5 6 =
      .ok ⟨Real.cos Real.pi, Real.sin Real.pi, 2, 10, 5, 5 * 5, 6 * 6⟩ :=
    Shoulder.of?_eq_ok.2 ⟨by norm_num, rfl⟩
  have hc : (Cursor.single crossing).current.coordAt 1 = ⟨-5, -1, 6⟩ := by
    have hcurrent : (Cursor.single crossing).current = crossing := rfl
    rw [hcurrent]
    simp only [Segment.coordAt, Segment.distanceAt, crossing, Coord.mk.injEq]
    norm_num
  have hreaches : Tower.reaches (⟨10 * 10, -5, 7⟩ : Tower ℝ) ⟨-5, -1, 6⟩ = true := by
    rw [Tower.reaches_iff, Tower.heightSquare_eq ht]
    norm_num
  have hframe : Shoulder.frame ⟨Real.cos Real.pi, Real.sin Real.pi, 2, 10, 5, 5 * 5, 6 * 6⟩ ⟨-5, -1, 6⟩ =
      (⟨3, 1, -4⟩ : Coord ℝ) := by
    simp only [Shoulder.frame, Real.cos_pi, Real.sin_pi, Coord.mk.injEq]
    norm_num
  have hspan : Shoulder.span ⟨3, 1, -4⟩ = 5 := by
    rw [Shoulder.span, Real.sqrt_eq_iff_eq_sq] <;> norm_num
  have hplane : Shoulder.inPlane Real.pi ⟨-5, -1, 6⟩ ≠ Shoulder.joint 2 10 Real.pi := by
    intro heq
    have hz : (6 : ℝ) = 10 := congrArg Coord.z heq
    norm_num at hz
  have hlength := (htower 10 (-5) 7 _ ht (.single crossing) 1).2
  have hlength' := (hshoulder 2 10 Real.pi 5 6 _ hs (.single crossing) 1)
  rw [hc] at hlength hlength'
  refine ⟨_, _, ht, hs, hlength hreaches, ((hlength' hplane).2 ?_).2⟩
  rw [hframe, Shoulder.elbowCosine_eq hs, hspan]
  constructor <;> norm_num

end Model

end PrinterMotion
