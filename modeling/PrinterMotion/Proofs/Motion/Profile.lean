/-
The profile of a move from rest to rest. The speed rises steadily, stays, and falls as it rose. Both the speed and
the distance that is covered have one formula for all times, in terms of how far a ramp has been climbed, and the
segments of the move run along it, phase by phase. So limits and continuity are shown for the formula, and hold at
the ends of the phases as well as inside them.
-/
import Mathlib
import PrinterMotion.Motion.Timing
import PrinterMotion.Proofs.Motion.Tracing

namespace PrinterMotion

variable {F : Type} [Exact F]

/-! ## Lines -/

/-- The point at a distance along a direction. -/
def Coord.ahead (p d : Coord F) (distance : F) : Coord F :=
  ⟨p.x + d.x * distance, p.y + d.y * distance, p.z + d.z * distance⟩

@[simp] theorem Coord.ahead_zero (p d : Coord F) : p.ahead d 0 = p := by
  simp [ahead]

theorem Coord.ahead_ahead (p d : Coord F) (x y : F) : (p.ahead d x).ahead d y = p.ahead d (x + y) := by
  simp only [ahead, mk.injEq]
  refine ⟨?_, ?_, ?_⟩ <;> ring

theorem Segment.coordAt_eq_ahead (s : Segment F) (t : F) :
    s.coordAt t = s.position.ahead s.direction (s.distanceAt t) := rfl

/-! ## Ramps -/

/-- How far a ramp of a width has been climbed. -/
def ramp (w u : F) : F := max 0 (min u w)

/-- The area under the part of a ramp that has been climbed, and behind the ramp. -/
def rampArea (w u : F) : F := 0.5 * (max u 0 ^ 2 - max (u - w) 0 ^ 2)

section Ramps
variable {w u x y : F}

theorem ramp_of_nonpos (hu : u ≤ 0) : ramp w u = 0 := max_eq_left ((min_le_left u w).trans hu)

theorem ramp_of_le (h0 : 0 ≤ u) (hu : u ≤ w) : ramp w u = u := by
  rw [ramp, min_eq_left hu, max_eq_right h0]

theorem ramp_of_ge (h0 : 0 ≤ w) (hu : w ≤ u) : ramp w u = w := by
  rw [ramp, min_eq_right hu, max_eq_right h0]

theorem ramp_nonneg (w u : F) : 0 ≤ ramp w u := le_max_left _ _

theorem ramp_le (h0 : 0 ≤ w) (u : F) : ramp w u ≤ w := max_le h0 (min_le_right u w)

theorem ramp_mono (w : F) : Monotone (ramp w) := fun _ _ h => max_le_max le_rfl (min_le_min h le_rfl)

/-- A ramp is no steeper than the time. -/
theorem ramp_sub_le (w : F) (h : x ≤ y) : ramp w y - ramp w x ≤ y - x := by
  rw [sub_le_iff_le_add]
  refine max_le (by linarith [ramp_nonneg w x]) ?_
  calc min y w ≤ y - x + min x w := by
        rcases le_total x w with hx | hx
        · rw [min_eq_left hx]
          linarith [min_le_left y w]
        · rw [min_eq_right hx]
          linarith [min_le_right y w]
    _ ≤ y - x + ramp w x := add_le_add_right (le_max_right _ _) _

theorem rampArea_eq (w u : F) : rampArea w u = (max u 0 ^ 2 - max (u - w) 0 ^ 2) / 2 := by
  have half : (0.5 : F) = 1 / 2 := by norm_num
  rw [rampArea, half]
  ring

theorem rampArea_of_nonpos (h0 : 0 ≤ w) (hu : u ≤ 0) : rampArea w u = 0 := by
  rw [rampArea_eq, max_eq_right hu, max_eq_right (by linarith)]
  ring

theorem rampArea_of_le (h0 : 0 ≤ u) (hu : u ≤ w) : rampArea w u = u ^ 2 / 2 := by
  rw [rampArea_eq, max_eq_left h0, max_eq_right (by linarith)]
  ring

theorem rampArea_of_ge (h0 : 0 ≤ w) (hu : w ≤ u) : rampArea w u = w * (u - w / 2) := by
  rw [rampArea_eq, max_eq_left (h0.trans hu), max_eq_left (by linarith)]
  ring

end Ramps

namespace Timing

/-! ## Balanced moves -/

/-- The phases of a move that slows down as it has sped up, and covers its distance. -/
structure Balanced (t : Timing F) : Prop where
  speedsUp : 0 < t.accelTime
  cruises : 0 ≤ t.cruiseTime
  slowsDown : t.decelTime = t.accelTime
  velocity : t.cruiseVelocity = t.accel * t.accelTime
  distance : t.distance = t.cruiseVelocity * (t.accelTime + t.cruiseTime)

/-- The speed of a move at a time from its start. -/
def speedAt (t : Timing F) (u : F) : F :=
  t.accel * (ramp t.accelTime u - ramp t.accelTime (u - (t.accelTime + t.cruiseTime)))

/-- The distance that a move has covered at a time from its start. -/
def travelled (t : Timing F) (u : F) : F :=
  t.accel * (rampArea t.accelTime u - rampArea t.accelTime (u - (t.accelTime + t.cruiseTime)))

variable {t : Timing F} {time u : F} {p d : Coord F}

theorem Balanced.scaled (h : t.Balanced) (ratio : F) : (t.scaled ratio).Balanced where
  speedsUp := h.speedsUp
  cruises := h.cruises
  slowsDown := h.slowsDown
  velocity := by
    simp only [Timing.scaled, h.velocity]
    ring
  distance := by
    simp only [Timing.scaled, h.distance]
    ring

theorem travelled_scaled (t : Timing F) (ratio u : F) : (t.scaled ratio).travelled u = t.travelled u * ratio := by
  simp only [travelled, scaled]
  ring

@[simp] theorem total_scaled (t : Timing F) (ratio : F) : (t.scaled ratio).total = t.total := rfl

namespace Balanced

theorem total_eq (h : t.Balanced) : t.total = t.accelTime + t.cruiseTime + t.accelTime := by
  rw [total, h.slowsDown]

theorem total_pos (h : t.Balanced) : 0 < t.total := by
  have := h.speedsUp
  have := h.cruises
  rw [h.total_eq]
  linarith

theorem before (h : t.Balanced) (hu : u ≤ 0) : t.travelled u = 0 ∧ t.speedAt u = 0 := by
  have := h.speedsUp
  have := h.cruises
  have hlater : u - (t.accelTime + t.cruiseTime) ≤ 0 := by linarith
  rw [travelled, speedAt, rampArea_of_nonpos h.speedsUp.le hu, rampArea_of_nonpos h.speedsUp.le hlater,
    ramp_of_nonpos hu, ramp_of_nonpos hlater]
  simp

theorem speedingUp (h : t.Balanced) (h0 : 0 ≤ u) (hu : u ≤ t.accelTime) :
    t.travelled u = t.accel * (u ^ 2 / 2) ∧ t.speedAt u = t.accel * u := by
  have hlater : u - (t.accelTime + t.cruiseTime) ≤ 0 := by linarith [h.cruises]
  rw [travelled, speedAt, rampArea_of_le h0 hu, rampArea_of_nonpos h.speedsUp.le hlater, ramp_of_le h0 hu,
    ramp_of_nonpos hlater]
  simp

theorem cruising (h : t.Balanced) (h0 : t.accelTime ≤ u) (hu : u ≤ t.accelTime + t.cruiseTime) :
    t.travelled u = t.cruiseVelocity * (u - t.accelTime / 2) ∧ t.speedAt u = t.cruiseVelocity := by
  have hlater : u - (t.accelTime + t.cruiseTime) ≤ 0 := by linarith
  rw [travelled, speedAt, rampArea_of_ge h.speedsUp.le h0, rampArea_of_nonpos h.speedsUp.le hlater,
    ramp_of_ge h.speedsUp.le h0, ramp_of_nonpos hlater, h.velocity]
  constructor <;> ring

theorem slowingDown (h : t.Balanced) (h0 : t.accelTime + t.cruiseTime ≤ u) (hu : u ≤ t.total) :
    t.travelled u = t.distance - t.accel * ((t.total - u) ^ 2 / 2) ∧ t.speedAt u = t.accel * (t.total - u) := by
  have hcruises := h.cruises
  rw [h.total_eq] at hu ⊢
  rw [travelled, speedAt, rampArea_of_ge h.speedsUp.le (by linarith), rampArea_of_le (by linarith) (by linarith),
    ramp_of_ge h.speedsUp.le (by linarith), ramp_of_le (by linarith) (by linarith), h.distance, h.velocity]
  constructor <;> ring

theorem behind (h : t.Balanced) (hu : t.total ≤ u) : t.travelled u = t.distance ∧ t.speedAt u = 0 := by
  have hcruises := h.cruises
  have hspeeds := h.speedsUp
  rw [h.total_eq] at hu
  rw [travelled, speedAt, rampArea_of_ge h.speedsUp.le (by linarith), rampArea_of_ge h.speedsUp.le (by linarith),
    ramp_of_ge h.speedsUp.le (by linarith), ramp_of_ge h.speedsUp.le (by linarith), h.distance, h.velocity]
  constructor <;> ring

end Balanced

/-! ## Segments -/

theorem segments_along_nil (h : t.accelTime = 0 ∧ t.cruiseTime = 0 ∧ t.decelTime = 0) (time : F) (p d : Coord F) :
    (t.along time p d).segments = [] := by
  obtain ⟨hup, hlevel, hdown⟩ := h
  simp [Queue.Trapezoid.segments, along, hup, hlevel, hdown]

/-- The segment runs along the profile of a move that begins at a time and place. -/
structure Rides (t : Timing F) (time : F) (p d : Coord F) (s : Segment F) : Prop where
  point : ∀ x, s.start ≤ x → x ≤ s.finish → s.coordAt (x - s.start) = p.ahead d (t.travelled (x - time))
  speed : ∀ x, s.start ≤ x → x ≤ s.finish → s.velocityAt (x - s.start) = t.speedAt (x - time)
  accel : |2 * s.halfAccel| ≤ |t.accel|
  direction : s.direction = d

/-- A segment from the point that a move has reached `since` its start. -/
def part (t : Timing F) (time : F) (p d : Coord F) (since duration velocity halfAccel : F) (phase : Phase) :
    Segment F :=
  ⟨time + since, duration, velocity, halfAccel, p.ahead d (t.travelled since), d, phase⟩

theorem part_rides {since duration velocity halfAccel : F} (phase : Phase)
    (hpoint : ∀ u, since ≤ u → u ≤ since + duration →
      t.travelled u = t.travelled since + (velocity + halfAccel * (u - since)) * (u - since))
    (hspeed : ∀ u, since ≤ u → u ≤ since + duration → t.speedAt u = velocity + 2 * halfAccel * (u - since))
    (haccel : |2 * halfAccel| ≤ |t.accel|) :
    t.Rides time p d (t.part time p d since duration velocity halfAccel phase) := by
  have hshift : ∀ x, x - (time + since) = x - time - since := fun x => by ring
  constructor
  · intro x hlow hupp
    simp only [part, Segment.finish] at hlow hupp
    rw [Segment.coordAt_eq_ahead, Segment.distanceAt, hpoint (x - time) (by linarith) (by linarith)]
    simp only [part, Coord.ahead_ahead, hshift]
  · intro x hlow hupp
    simp only [part, Segment.finish] at hlow hupp
    rw [hspeed (x - time) (by linarith) (by linarith), Segment.velocityAt]
    simp only [part, hshift]
    norm_num
  · exact haccel
  · rfl

namespace Balanced

/-- A move is made of its first phase, of its second if there is one, and of its last. -/
theorem segments_along (h : t.Balanced) (time : F) (p d : Coord F) : (t.along time p d).segments =
    t.part time p d 0 t.accelTime 0 (t.accel / 2) .accelerate ::
      ((if 0 < t.cruiseTime then [t.part time p d t.accelTime t.cruiseTime t.cruiseVelocity 0 .cruise] else []) ++
        [t.part time p d (t.accelTime + t.cruiseTime) t.accelTime t.cruiseVelocity (-(t.accel / 2))
          .decelerate]) := by
  have hfirst := (h.before le_rfl).1
  have hsecond := (h.cruising le_rfl (le_add_of_nonneg_right h.cruises)).1
  have hthird := (h.cruising (le_add_of_nonneg_right h.cruises) le_rfl).1
  have hup : (0.5 : F) * t.accel = t.accel / 2 := by norm_num; ring
  have hdown : (-0.5 : F) * t.accel = -(t.accel / 2) := by norm_num; ring
  -- The places at which the first two phases end.
  have htop : Segment.target ⟨time, t.accelTime, 0, t.accel / 2, p, d, .accelerate⟩ =
      p.ahead d (t.travelled t.accelTime) := by
    rw [Segment.target, Segment.coordAt_eq_ahead, hsecond, h.velocity, Segment.distanceAt]
    congr 1
    ring
  have hedge : Segment.target ⟨time + t.accelTime, t.cruiseTime, t.cruiseVelocity, 0,
      p.ahead d (t.travelled t.accelTime), d, .cruise⟩ = p.ahead d (t.travelled (t.accelTime + t.cruiseTime)) := by
    rw [Segment.target, Segment.coordAt_eq_ahead, hsecond, hthird, Segment.distanceAt, Coord.ahead_ahead]
    congr 1
    ring
  unfold Queue.Trapezoid.segments along part
  simp only [Scalar.zero_literal, hup, hdown, h.slowsDown, if_pos h.speedsUp, Queue.Trapezoid.segments.after, htop,
    hfirst, add_zero, Coord.ahead_zero]
  by_cases hc : 0 < t.cruiseTime
  · simp only [if_pos hc, hedge, add_assoc, List.cons_append, List.nil_append]
  · have hnone : t.cruiseTime = 0 := le_antisymm (not_lt.1 hc) h.cruises
    simp [hnone]

theorem rides (h : t.Balanced) : ∀ s ∈ (t.along time p d).segments, t.Rides time p d s := by
  have hspeedsUp := h.speedsUp
  have hcruises := h.cruises
  have htotal := h.total_eq
  intro s hs
  rw [h.segments_along] at hs
  rcases List.mem_cons.1 hs with rfl | hs
  · refine part_rides _ (fun u hlow hupp => ?_) (fun u hlow hupp => ?_) ?_
    · rw [(h.speedingUp hlow (by linarith)).1, (h.before le_rfl).1]
      ring
    · rw [(h.speedingUp hlow (by linarith)).2]
      ring
    · rw [mul_div_cancel₀ _ two_ne_zero]
  rcases List.mem_append.1 hs with hs | hs
  · split at hs
    · obtain rfl := List.mem_singleton.1 hs
      refine part_rides _ (fun u hlow hupp => ?_) (fun u hlow hupp => ?_) ?_
      · rw [(h.cruising hlow hupp).1, (h.cruising le_rfl (by linarith)).1]
        ring
      · rw [(h.cruising hlow hupp).2]
        ring
      · simp
    · cases hs
  · obtain rfl := List.mem_singleton.1 hs
    refine part_rides _ (fun u hlow hupp => ?_) (fun u hlow hupp => ?_) ?_
    · rw [(h.slowingDown hlow (by linarith)).1, (h.slowingDown le_rfl (by linarith)).1, htotal, h.velocity]
      ring
    · rw [(h.slowingDown hlow (by linarith)).2, htotal, h.velocity]
      ring
    · rw [mul_neg, abs_neg, mul_div_cancel₀ _ two_ne_zero]

theorem ne_nil (h : t.Balanced) (time : F) (p d : Coord F) : (t.along time p d).segments ≠ [] := by
  rw [h.segments_along]
  exact List.cons_ne_nil _ _

/-- The last phase lasts, and ends with the move. -/
theorem last_phase (h : t.Balanced) {last : Segment F} (hl : last ∈ (t.along time p d).segments.getLast?) :
    last.start ≤ last.finish ∧ last.finish = time + t.total := by
  rw [h.segments_along, ← List.cons_append, List.getLast?_concat] at hl
  cases hl
  refine ⟨Segment.start_le_finish h.speedsUp.le, ?_⟩
  rw [h.total_eq, part, Segment.finish]
  ring

/-- The trajectory of a move is its line, as far as it has travelled. -/
theorem traces (h : t.Balanced) (time : F) (p d : Coord F) :
    Traces (fun x => p.ahead d (t.travelled (x - time))) (t.along time p d).segments := by
  refine ⟨fun first hf x hx => ?_, fun s hs x hlow hupp => ((h.rides s hs).point x hlow hupp).symm,
    fun last hl x hx => ?_⟩
  · rw [h.segments_along] at hf
    cases hf
    simp only [part, add_zero] at hx
    rw [(h.before (sub_nonpos.2 hx)).1, part, (h.before le_rfl).1]
  · obtain ⟨hle, hfinish⟩ := h.last_phase hl
    have hend := (h.rides last (List.mem_of_getLast? hl)).point last.finish hle le_rfl
    rw [hfinish] at hx
    rw [Segment.target, ← add_sub_cancel_left last.start last.duration, ← Segment.finish, hend, hfinish,
      add_sub_cancel_left, (h.behind le_rfl).1, (h.behind (by linarith)).1]

end Balanced

/-! ## Limits -/

theorem Balanced.speed_nonneg (h : t.Balanced) (ha : 0 ≤ t.accel) (u : F) : 0 ≤ t.speedAt u := by
  refine mul_nonneg ha (sub_nonneg.2 (ramp_mono _ ?_))
  linarith [h.speedsUp, h.cruises]

theorem Balanced.speed_le (h : t.Balanced) (ha : 0 ≤ t.accel) (u : F) : t.speedAt u ≤ t.cruiseVelocity := by
  rw [h.velocity]
  refine mul_le_mul_of_nonneg_left ?_ ha
  linarith [ramp_le h.speedsUp.le u, ramp_nonneg t.accelTime (u - (t.accelTime + t.cruiseTime))]

/-- The speed changes no faster than the acceleration allows. -/
theorem speed_gradual (ha : 0 ≤ t.accel) (u v : F) : |t.speedAt u - t.speedAt v| ≤ t.accel * |u - v| := by
  wlog huv : u ≤ v generalizing u v
  · rw [abs_sub_comm, abs_sub_comm u]
    exact this v u (le_of_not_ge huv)
  -- On one ramp the speed can only rise, on the other only fall.
  have hup := ramp_sub_le t.accelTime huv
  have hup' := ramp_mono t.accelTime huv
  have hdown := ramp_sub_le t.accelTime (sub_le_sub_right huv (t.accelTime + t.cruiseTime))
  have hdown' := ramp_mono t.accelTime (sub_le_sub_right huv (t.accelTime + t.cruiseTime))
  rw [speedAt, speedAt, ← mul_sub, abs_mul, abs_of_nonneg ha]
  refine mul_le_mul_of_nonneg_left ?_ ha
  rw [abs_sub_comm u, abs_of_nonneg (sub_nonneg.2 huv), abs_le]
  constructor <;> linarith

end Timing

/-! ## Over the real numbers -/

section Reals
variable {w u : ℝ} {t : Timing ℝ}

theorem hasDerivAt_max_sq (u : ℝ) : HasDerivAt (fun x => max x 0 ^ 2) (2 * max u 0) u := by
  rcases lt_trichotomy u 0 with hu | rfl | hu
  · rw [max_eq_right hu.le, mul_zero]
    refine (hasDerivAt_const u (0 : ℝ)).congr_of_eventuallyEq ?_
    filter_upwards [eventually_lt_nhds hu] with x hx
    rw [max_eq_right hx.le, zero_pow two_ne_zero]
  · -- On either side it is a function whose derivative vanishes at 0.
    have hbehind : HasDerivWithinAt (fun x : ℝ => max x 0 ^ 2) 0 (Set.Iic 0) 0 := by
      refine (hasDerivWithinAt_const 0 (Set.Iic 0) (0 : ℝ)).congr (fun x hx => ?_) (by simp)
      rw [max_eq_right hx, zero_pow two_ne_zero]
    have hahead : HasDerivWithinAt (fun x : ℝ => max x 0 ^ 2) 0 (Set.Ici 0) 0 := by
      have hsq : HasDerivWithinAt (fun x : ℝ => x ^ 2) 0 (Set.Ici 0) 0 := by
        simpa using (hasDerivAt_pow 2 (0 : ℝ)).hasDerivWithinAt (s := Set.Ici 0)
      refine hsq.congr (fun x hx => ?_) (by simp)
      rw [max_eq_left hx]
    have hboth := hbehind.union hahead
    rw [Set.Iic_union_Ici, hasDerivWithinAt_univ] at hboth
    simpa using hboth
  · rw [max_eq_left hu.le]
    have hsq : HasDerivAt (fun x : ℝ => x ^ 2) (2 * u) u := by simpa using hasDerivAt_pow 2 u
    refine hsq.congr_of_eventuallyEq ?_
    filter_upwards [eventually_gt_nhds hu] with x hx
    rw [max_eq_left hx.le]

/-- The area grows as the ramp is climbed. -/
theorem hasDerivAt_rampArea (hw : 0 ≤ w) (u : ℝ) : HasDerivAt (rampArea w) (ramp w u) u := by
  rw [funext (rampArea_eq w)]
  refine (((hasDerivAt_max_sq u).sub ((hasDerivAt_max_sq (u - w)).comp_sub_const u w)).div_const 2).congr_deriv ?_
  rcases le_total u 0 with hu | hu
  · rw [ramp_of_nonpos hu, max_eq_right hu, max_eq_right (by linarith)]
    ring
  · rcases le_total u w with hu' | hu'
    · rw [ramp_of_le hu hu', max_eq_left hu, max_eq_right (by linarith)]
      ring
    · rw [ramp_of_ge hw hu', max_eq_left hu, max_eq_left (by linarith)]
      ring

namespace Timing

theorem Balanced.hasDerivAt_travelled (h : t.Balanced) (u : ℝ) : HasDerivAt t.travelled (t.speedAt u) u :=
  ((hasDerivAt_rampArea h.speedsUp.le u).sub
    ((hasDerivAt_rampArea h.speedsUp.le _).comp_sub_const u _)).const_mul t.accel

theorem Balanced.travelled_mono (h : t.Balanced) (ha : 0 ≤ t.accel) : Monotone t.travelled := by
  refine monotone_of_deriv_nonneg (fun u => (h.hasDerivAt_travelled u).differentiableAt) fun u => ?_
  rw [(h.hasDerivAt_travelled u).deriv]
  exact h.speed_nonneg ha u

/-- The distance is not covered before the move ends. -/
theorem Balanced.travelled_lt (h : t.Balanced) (ha : 0 < t.accel) (hu : u < t.total) :
    t.travelled u < t.distance := by
  have htotal := h.total_eq
  have hspeedsUp := h.speedsUp
  calc t.travelled u ≤ t.travelled (max u (t.accelTime + t.cruiseTime)) := h.travelled_mono ha.le (le_max_left _ _)
    _ = t.distance - t.accel * ((t.total - max u (t.accelTime + t.cruiseTime)) ^ 2 / 2) :=
      (h.slowingDown (le_max_right _ _) (max_le hu.le (by linarith))).1
    _ < t.distance := by
      have hleft : max u (t.accelTime + t.cruiseTime) < t.total := max_lt hu (by linarith)
      have hpos := sub_pos.2 hleft
      exact sub_lt_self _ (by positivity)

/-- A course of motion from rest to rest over a distance: the part of it that is covered at each time, and the speed,
which stays within a limit, as does its change. -/
structure RestToRest (distance maxVelocity accel since till : ℝ) (covered speed : ℝ → ℝ) : Prop where
  waits : ∀ x ≤ since, covered x = 0 ∧ speed x = 0
  arrives : ∀ x, covered x = 1 ↔ till ≤ x
  stops : ∀ x ≥ till, speed x = 0
  advances : Monotone covered
  velocity : ∀ x, HasDerivAt covered (speed x / distance) x
  bounded : ∀ x, 0 ≤ speed x ∧ speed x ≤ maxVelocity
  gradual : ∀ x y, |speed x - speed y| ≤ accel * |x - y|

/-- The part of its distance that a move has covered at a time. -/
noncomputable def covered (t : Timing ℝ) (time x : ℝ) : ℝ := t.travelled (x - time) / t.distance

theorem Balanced.distance_pos (h : t.Balanced) (ha : 0 < t.accel) : 0 < t.distance := by
  have hspeedsUp := h.speedsUp
  have hcruises := h.cruises
  rw [h.distance, h.velocity]
  positivity

theorem Balanced.restToRest (h : t.Balanced) (ha : 0 < t.accel) {maxVelocity : ℝ}
    (hv : t.cruiseVelocity ≤ maxVelocity) (time : ℝ) :
    RestToRest t.distance maxVelocity t.accel time (time + t.total) (t.covered time)
      fun x => t.speedAt (x - time) where
  waits x hx := by
    obtain ⟨htravelled, hspeed⟩ := h.before (sub_nonpos.2 hx)
    exact ⟨by rw [covered, htravelled, zero_div], hspeed⟩
  arrives x := by
    rw [covered, div_eq_one_iff_eq (h.distance_pos ha).ne']
    constructor
    · intro hall
      by_contra hearly
      exact (h.travelled_lt ha (by linarith)).ne hall
    · exact fun hx => (h.behind (by linarith)).1
  stops x hx := (h.behind (by linarith)).2
  advances x y hxy := by
    have hle := h.travelled_mono ha.le (sub_le_sub_right hxy time)
    exact div_le_div_of_nonneg_right hle (h.distance_pos ha).le
  velocity x := ((h.hasDerivAt_travelled (x - time)).comp_sub_const x time).div_const t.distance
  bounded x := ⟨h.speed_nonneg ha.le _, (h.speed_le ha.le _).trans hv⟩
  gradual x y := by
    have hgradual := speed_gradual ha.le (t := t) (x - time) (y - time)
    rwa [sub_sub_sub_cancel_right] at hgradual

/-- A plan for a distance, within limits, is balanced. -/
theorem plan_balanced {distance maxVelocity accel : ℝ} (hd : 0 < distance) (hv : 0 < maxVelocity) (ha : 0 < accel) :
    (plan distance maxVelocity accel).Balanced ∧ (plan distance maxVelocity accel).distance = distance ∧
      (plan distance maxVelocity accel).accel = accel ∧
      (plan distance maxVelocity accel).cruiseVelocity ≤ maxVelocity := by
  have hroot : 0 < √(distance * accel) := Real.sqrt_pos.2 (mul_pos hd ha)
  have hsquare : √(distance * accel) * √(distance * accel) = distance * accel :=
    Real.mul_self_sqrt (mul_pos hd ha).le
  set velocity := min maxVelocity √(distance * accel) with hvelocity
  have hpos : 0 < velocity := lt_min hv hroot
  -- The distance is enough to reach the velocity and to slow down again.
  have hreach : velocity * (velocity / accel) ≤ distance := by
    rw [← mul_div_assoc, div_le_iff₀ ha, ← hsquare]
    exact mul_self_le_mul_self hpos.le (min_le_right _ _)
  have hcruise : 0 ≤ (distance - velocity * (velocity / accel)) / velocity := by
    have hrest := sub_nonneg.2 hreach
    positivity
  have hplan : plan distance maxVelocity accel = ⟨distance, velocity / accel,
      (distance - velocity * (velocity / accel)) / velocity, velocity / accel, velocity, accel⟩ := by
    have hsqrt : Scalar.sqrt (distance * accel) = √(distance * accel) := rfl
    simp only [plan, Scalar.min_eq, Scalar.max_eq, Scalar.zero_literal, hsqrt, ← hvelocity, if_pos hpos,
      max_eq_left hcruise]
  rw [hplan]
  refine ⟨⟨div_pos hpos ha, hcruise, rfl, (mul_div_cancel₀ velocity ha.ne').symm, ?_⟩, rfl, rfl, min_le_left _ _⟩
  rw [mul_add, mul_div_cancel₀ _ hpos.ne', add_sub_cancel]

/-- A plan without a speed has no phases. -/
theorem plan_still {distance maxVelocity accel : ℝ} (h : min maxVelocity √(distance * accel) ≤ 0) :
    (plan distance maxVelocity accel).accelTime = 0 ∧ (plan distance maxVelocity accel).cruiseTime = 0 ∧
      (plan distance maxVelocity accel).decelTime = 0 := by
  have hsqrt : Scalar.sqrt (distance * accel) = √(distance * accel) := rfl
  simp [plan, hsqrt, not_lt.2 h]

end Timing

end Reals

end PrinterMotion
