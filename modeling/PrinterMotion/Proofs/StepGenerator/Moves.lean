/-
Straight moves, and the filament that is moved alongside. A move is queued as the phases of its timing, so what its
cursors read is the point of the line that the profile of the timing has come to; and the extrusion of a move has
the same profile, scaled to the filament, so it has always come as far.
-/
import PrinterMotion.Proofs.Motion.Behind
import PrinterMotion.Proofs.Motion.Profile
import PrinterMotion.Proofs.StepGenerator.Holding

namespace PrinterMotion.StepGenerator

open Queue Timing

/-! ## Lines -/

/-- The distance between two points. -/
noncomputable def lineLength (a b : Coord ℝ) : ℝ :=
  √((displacement a b).x * (displacement a b).x + (displacement a b).y * (displacement a b).y +
    (displacement a b).z * (displacement a b).z)

/-- The direction from one point to another, as a vector of length one. -/
noncomputable def heading (a b : Coord ℝ) : Coord ℝ :=
  ⟨(displacement a b).x / lineLength a b, (displacement a b).y / lineLength a b,
    (displacement a b).z / lineLength a b⟩

/-- The point of the line from `a` to `b` when a part of it is covered. -/
noncomputable def linePoint (a b : Coord ℝ) (part : ℝ) : Coord ℝ := a.ahead (displacement a b) part

section Lines
variable (a b : Coord ℝ)

@[simp] theorem linePoint_zero : linePoint a b 0 = a := Coord.ahead_zero a _

@[simp] theorem linePoint_one : linePoint a b 1 = b := by
  simp [linePoint, Coord.ahead, displacement]

theorem lineLength_eq_zero : lineLength a b = 0 ↔ a = b := by
  have hx := mul_self_nonneg (displacement a b).x
  have hy := mul_self_nonneg (displacement a b).y
  have hz := mul_self_nonneg (displacement a b).z
  rw [lineLength, Real.sqrt_eq_zero (by positivity)]
  constructor
  · intro hsum
    have hx0 : (displacement a b).x = 0 := mul_self_eq_zero.1 (by linarith)
    have hy0 : (displacement a b).y = 0 := mul_self_eq_zero.1 (by linarith)
    have hz0 : (displacement a b).z = 0 := mul_self_eq_zero.1 (by linarith)
    refine Coord.eq_of_get fun i => ?_
    cases i with
    | x => exact (sub_eq_zero.1 hx0).symm
    | y => exact (sub_eq_zero.1 hy0).symm
    | z => exact (sub_eq_zero.1 hz0).symm
  · rintro rfl
    simp [displacement]

variable {a b}

theorem lineLength_pos (h : a ≠ b) : 0 < lineLength a b :=
  lt_of_le_of_ne (Real.sqrt_nonneg _) (Ne.symm ((lineLength_eq_zero a b).not.2 h))

/-- A distance along the direction is that part of the line. -/
theorem ahead_heading (h : a ≠ b) (distance : ℝ) :
    a.ahead (heading a b) distance = linePoint a b (distance / lineLength a b) := by
  have hpos := lineLength_pos h
  simp only [linePoint, Coord.ahead, heading, Coord.mk.injEq]
  refine ⟨?_, ?_, ?_⟩ <;> ring

end Lines

/-! ## Moves -/

variable {g g' h h' : StepGenerator ℝ} {time till maxVelocity accel : ℝ} {start finish : Coord ℝ} {timing : Timing ℝ}

/-- The timing of a move along a line. -/
noncomputable def lineTiming (start finish : Coord ℝ) (maxVelocity accel : ℝ) : Timing ℝ :=
  plan (lineLength start finish) maxVelocity accel

theorem queueMove_still (g : StepGenerator ℝ) (time : ℝ) (start : Coord ℝ) (maxVelocity accel : ℝ) :
    g.queueMove time start start maxVelocity accel = (g, .ok (time, lineTiming start start maxVelocity accel)) := by
  have hzero : (lineLength start start == (0.0 : ℝ)) = true := by
    rw [Scalar.zero_literal, beq_iff_eq]
    exact (lineLength_eq_zero start start).2 rfl
  exact if_pos hzero

theorem queueMove_eq (hline : start ≠ finish) (g : StepGenerator ℝ) (time maxVelocity accel : ℝ) :
    g.queueMove time start finish maxVelocity accel =
      match g.toolhead.append
        ((lineTiming start finish maxVelocity accel).along time start (heading start finish)) with
      | (toolhead, some e) => ({ g with toolhead }, .error (.queue e))
      | (toolhead, none) =>
        ({ g with toolhead }, .ok (time + (lineTiming start finish maxVelocity accel).total,
          lineTiming start finish maxVelocity accel)) := by
  have hmoves : ¬ (lineLength start finish == (0.0 : ℝ)) = true := by
    rw [Scalar.zero_literal, beq_iff_eq]
    exact (lineLength_eq_zero start finish).not.2 hline
  have hlength : Scalar.sqrt ((displacement start finish).x * (displacement start finish).x +
      (displacement start finish).y * (displacement start finish).y +
      (displacement start finish).z * (displacement start finish).z) = lineLength start finish := rfl
  simp only [queueMove, hlength, if_neg hmoves, lineTiming, heading]
  rcases g.toolhead.append _ with ⟨toolhead, - | e⟩ <;> rfl

/-- What a queued move leaves. -/
theorem queueMove_ok (hline : start ≠ finish)
    (h : g.queueMove time start finish maxVelocity accel = (g', .ok (till, timing))) :
    timing = lineTiming start finish maxVelocity accel ∧ till = time + timing.total ∧
      g.toolhead.append (timing.along time start (heading start finish)) = (g'.toolhead, none) := by
  rw [queueMove_eq hline] at h
  split at h
  · cases h
  · rename_i toolhead happend
    cases h
    exact ⟨rfl, rfl, happend⟩

/-- A move that begins where the queue ended is accepted. -/
theorem queueMove_of_endsBy (hline : start ≠ finish) (hends : g.toolhead.EndsBy ⟨start, time⟩)
    (maxVelocity accel : ℝ) : ∃ g', g.queueMove time start finish maxVelocity accel =
      (g', .ok (time + (lineTiming start finish maxVelocity accel).total,
        lineTiming start finish maxVelocity accel)) := by
  obtain ⟨toolhead, happend⟩ : ∃ toolhead, g.toolhead.append
      ((lineTiming start finish maxVelocity accel).along time start (heading start finish)) = (toolhead, none) :=
    ⟨_, Prod.ext rfl (append_of_endsBy hends)⟩
  exact ⟨{ g with toolhead }, by rw [queueMove_eq hline, happend]⟩

theorem lineTiming_balanced (hline : start ≠ finish) (hv : 0 < maxVelocity) (ha : 0 < accel) :
    (lineTiming start finish maxVelocity accel).Balanced ∧
      (lineTiming start finish maxVelocity accel).distance = lineLength start finish ∧
      (lineTiming start finish maxVelocity accel).accel = accel ∧
      (lineTiming start finish maxVelocity accel).cruiseVelocity ≤ maxVelocity :=
  plan_balanced (lineLength_pos hline) hv ha

/-- Without a speed or an acceleration there are no phases. -/
theorem lineTiming_still (h : maxVelocity ≤ 0 ∨ accel = 0) :
    (lineTiming start finish maxVelocity accel).accelTime = 0 ∧
      (lineTiming start finish maxVelocity accel).cruiseTime = 0 ∧
      (lineTiming start finish maxVelocity accel).decelTime = 0 := by
  refine plan_still ?_
  rcases h with hv | rfl
  · exact (min_le_left _ _).trans hv
  · rw [mul_zero, Real.sqrt_zero]
    exact min_le_right _ _

/-- A balanced timing that is queued along a line ends with its phases, and is read along its profile. -/
theorem along_queued {q q' : Queue ℝ} {p d : Coord ℝ} (hb : timing.Balanced)
    (happend : q.append (timing.along time p d) = (q', none)) :
    q.Gained q' (timing.along time p d).segments ∧ q'.finish? = some (time + timing.total) ∧
      ∀ x ≥ time, q'.ShowsBehind (q'.size - (timing.along time p d).segments.length) x
        (p.ahead d (timing.travelled (x - time))) := by
  have hne := hb.ne_nil time p d
  have hgained := append_gained happend hne
  have hlast := List.getLast?_eq_some_getLast hne
  refine ⟨hgained, ?_, fun x hx => append_showsBehind happend hne (hb.traces time p d) hx⟩
  rw [hgained.finish? hlast, (hb.last_phase hlast).2]

/-- A move that begins where the queue ended is accepted. If it goes anywhere, the queue ends with it, and from
rest to rest it stays within the limits. From its start on its cursors read the line as far as it is covered. If
the move begins when the queue ends, or late enough for a hold in between, they stand at its start from the end
that the queue had; and so do all cursors if the queue was without gaps or jumps. -/
theorem queueMove_runs (g : StepGenerator ℝ) (time : ℝ) (start finish : Coord ℝ) {maxVelocity accel : ℝ}
    (hv : 0 < maxVelocity) (ha : 0 < accel) (hends : g.toolhead.EndsBy ⟨start, time⟩) :
    (start = finish → ∃ timing, g.queueMove time start finish maxVelocity accel = (g, .ok (time, timing))) ∧
    (start ≠ finish → ∃ g' till timing covered speed row,
      g.queueMove time start finish maxVelocity accel = (g', .ok (till, timing)) ∧
      g.toolhead.Gained g'.toolhead row ∧ g'.toolhead.finish? = some till ∧ time < till ∧
      RestToRest (lineLength start finish) maxVelocity accel time till covered speed ∧
      (∀ x ≥ time, g'.toolhead.ShowsBehind g.toolhead.size x (linePoint start finish (covered x))) ∧
      (g.toolhead.Joins ⟨start, time⟩ → ∀ x, (∀ last ∈ g.toolhead.active.back?, last.finish ≤ x) →
        g'.toolhead.ShowsBehind g.toolhead.size x (linePoint start finish (covered x)) ∧
        (Contiguous g.toolhead.active → Unbroken g.toolhead.active.toList →
          g'.toolhead.Shows g'.toolhead.size x (linePoint start finish (covered x)))) ∧
      ∀ s ∈ row, |2 * s.halfAccel| ≤ accel ∧
        ∀ x, s.start ≤ x → x ≤ s.finish → s.velocityAt (x - s.start) = speed x) := by
  refine ⟨?_, fun hline => ?_⟩
  · rintro rfl
    exact ⟨_, queueMove_still g time start maxVelocity accel⟩
  obtain ⟨hb, hlength, haccel, hlimit⟩ := lineTiming_balanced hline hv ha
  obtain ⟨g', hmove⟩ := queueMove_of_endsBy hline hends maxVelocity accel
  obtain ⟨-, -, happend⟩ := queueMove_ok hline hmove
  generalize lineTiming start finish maxVelocity accel = timing at hb hlength haccel hlimit hmove happend
  obtain ⟨hgained, hfinish, -⟩ := along_queued hb happend
  obtain ⟨hahead, haround⟩ := append_shows hends (hb.ne_nil time start _) (hb.traces time start _) happend
  have hpoint : ∀ x, start.ahead (heading start finish) (timing.travelled (x - time)) =
      linePoint start finish (timing.covered time x) := by
    intro x
    rw [ahead_heading hline, covered, hlength]
  simp only [hpoint] at hahead haround
  have hrest := hb.restToRest (haccel ▸ ha) hlimit time
  rw [hlength, haccel] at hrest
  refine ⟨g', time + timing.total, timing, timing.covered time, fun x => timing.speedAt (x - time), _, hmove, hgained,
    hfinish, lt_add_of_pos_right time hb.total_pos, hrest, hahead, haround, fun s hs => ⟨?_, (hb.rides s hs).speed⟩⟩
  have hle := (hb.rides s hs).accel
  rwa [haccel, abs_of_pos ha] at hle

theorem endsBy_empty (a : Stand ℝ) : Queue.empty.EndsBy a := by
  intro last hlast
  simp [Queue.empty] at hlast

/-- From rest at 1 s, over 5 mm at up to 2 mm/s: before that all cursors stand at the one end, and when the move has
ended at the other. -/
theorem queueMove_runs_aslant : (⟨0, 0, 0⟩ : Coord ℝ) ≠ ⟨3, 4, 0⟩ ∧ ∃ g' till timing,
    (StepGenerator.empty : StepGenerator ℝ).queueMove 1 ⟨0, 0, 0⟩ ⟨3, 4, 0⟩ 2 1 = (g', .ok (till, timing)) ∧
      1 < till ∧ g'.toolhead.finish? = some till ∧
      (∀ x ≤ 1, g'.toolhead.Shows g'.toolhead.size x ⟨0, 0, 0⟩) ∧
      ∀ x ≥ till, g'.toolhead.Shows g'.toolhead.size x ⟨3, 4, 0⟩ := by
  have hline : (⟨0, 0, 0⟩ : Coord ℝ) ≠ ⟨3, 4, 0⟩ := by simp
  have hruns := queueMove_runs StepGenerator.empty 1 ⟨0, 0, 0⟩ ⟨3, 4, 0⟩ two_pos one_pos (endsBy_empty _)
  obtain ⟨g', till, timing, covered, speed, row, hmove, -, hfinish, hlt, hrest, -, haround, -⟩ := hruns.2 hline
  have hshows : ∀ x, g'.toolhead.Shows g'.toolhead.size x (linePoint ⟨0, 0, 0⟩ ⟨3, 4, 0⟩ (covered x)) := by
    intro x
    have hnone : ∀ last ∈ (Queue.empty : Queue ℝ).active.back?, False := by simp [Queue.empty]
    obtain ⟨-, hall⟩ := haround (fun last hl => (hnone last hl).elim) x fun last hl => (hnone last hl).elim
    exact hall (Joined.contiguous (a := ⟨⟨0, 0, 0⟩, 0⟩) trivial) .nil
  refine ⟨hline, g', till, timing, hmove, hlt, hfinish, fun x hx => ?_, fun x hx => ?_⟩
  · have hstands := hshows x
    rwa [(hrest.waits x hx).1, linePoint_zero] at hstands
  · have hstands := hshows x
    rwa [(hrest.arrives x).2 hx, linePoint_one] at hstands

/-- A generator whose queue ends at 2 s, with a very fast move. -/
def rushing : StepGenerator ℚ := { StepGenerator.empty with toolhead := fastMove }

/-- What has been queued on it half of the join tolerance later. -/
def rushedOn : StepGenerator ℚ × Except (GeneratorError ℚ) (ℚ × Timing ℚ) :=
  rushing.queueMove (2 + 5 / 10 ^ 10) ⟨0, 0, 0⟩ ⟨1, 0, 0⟩ 1 1

/-- A move on the spot returns its start, though the queue has no end. And in a gap of less than the join tolerance
no cursor stands at the start of the move. -/
theorem not_queueMove_runs_always :
    (¬ ∀ (g g' : StepGenerator ℝ) (time : ℝ) (start finish : Coord ℝ) (maxVelocity accel till : ℝ) (timing : Timing ℝ),
      0 < maxVelocity → 0 < accel → g.toolhead.EndsBy ⟨start, time⟩ →
      g.queueMove time start finish maxVelocity accel = (g', .ok (till, timing)) → g'.toolhead.finish? = some till) ∧
    ¬ ∀ (g g' : StepGenerator ℚ) (time : ℚ) (start finish : Coord ℚ) (maxVelocity accel till : ℚ) (timing : Timing ℚ),
      0 < maxVelocity → 0 < accel → g.toolhead.EndsBy ⟨start, time⟩ → Contiguous g.toolhead.active →
      Unbroken g.toolhead.active.toList →
      g.queueMove time start finish maxVelocity accel = (g', .ok (till, timing)) →
      ∀ x < time, (∀ last ∈ g.toolhead.active.back?, last.finish ≤ x) → g'.toolhead.Shows g'.toolhead.size x start := by
  constructor <;> intro h
  · have hfinish := h StepGenerator.empty _ 1 ⟨0, 0, 0⟩ ⟨0, 0, 0⟩ 1 1 1 _ one_pos one_pos (endsBy_empty _)
      (queueMove_still ..)
    simp [StepGenerator.empty, Queue.empty, finish?] at hfinish
  · have hjoined : Joined ⟨⟨-10 ^ 9, 0, 0⟩, 0⟩ rushing.toolhead.active.toList := by decide +kernel
    obtain ⟨⟨till, timing⟩, hok⟩ : ∃ answer, rushedOn.2.toOption = some answer :=
      Option.isSome_iff_exists.1 (by decide +kernel)
    have hshows : ¬ rushedOn.1.toolhead.Shows rushedOn.1.toolhead.size (2 + 4 / 10 ^ 10) ⟨0, 0, 0⟩ := by decide +kernel
    exact hshows (h rushing rushedOn.1 (2 + 5 / 10 ^ 10) ⟨0, 0, 0⟩ ⟨1, 0, 0⟩ 1 1 till timing (by decide +kernel)
      (by decide +kernel) (by decide +kernel) hjoined.contiguous (by decide +kernel)
      (Prod.ext rfl (toOption_eq_some.1 hok)) _ (by decide +kernel) (by decide +kernel))

/-! ## Extrusion -/

section Extrusion
variable {ref : QueueRef} {from_ distance : ℝ}

/-- What queued filament motion leaves. -/
theorem queueExtrusion_ok (hmoves : timing.distance ≠ 0) (hdistance : distance ≠ 0)
    (hok : h.queueExtrusion ref time timing from_ distance = (h', none)) :
    (h.queue ref).append ((timing.scaled (distance / timing.distance)).along time ⟨from_, 0, 0⟩
      ⟨1, if 0 < distance then 1 else 0, 0⟩) = (h'.queue ref, none) := by
  have hneither : ¬ (timing.distance == (0.0 : ℝ) || distance == (0.0 : ℝ)) = true := by simp [hmoves, hdistance]
  simp only [queueExtrusion, if_neg hneither] at hok
  simp only [Scalar.zero_literal, Scalar.one_literal, Prod.mk.injEq, Option.map_eq_none_iff] at hok
  obtain ⟨rfl, hnone⟩ := hok
  rw [queue_setQueue_self]
  exact Prod.ext rfl hnone

/-- Filament motion that begins where the queue ended is accepted. -/
theorem queueExtrusion_of_endsBy (hends : (h.queue ref).EndsBy ⟨⟨from_, 0, 0⟩, time⟩) (timing : Timing ℝ)
    (distance : ℝ) : (h.queueExtrusion ref time timing from_ distance).2 = none := by
  unfold queueExtrusion
  split
  · rfl
  · rw [Option.map_eq_none_iff]
    refine append_of_endsBy ?_
    rwa [Timing.along, Scalar.zero_literal]

/-- A move and its extrusion, in whatever state the queues are that accept them, keep in step: from the start of the
move on the filament has come as far as the line is covered, by the cursors on the one and on the other, and both end
when all of it is. What moves the filament is marked just if it moves forward. Without a speed or an acceleration
nothing is queued. -/
theorem queueExtrusion_keeps_step (hline : start ≠ finish) (hdistance : distance ≠ 0)
    (hmove : g.queueMove time start finish maxVelocity accel = (g', .ok (till, timing)))
    (hextrude : h.queueExtrusion ref time timing from_ distance = (h', none)) :
    (0 < maxVelocity → 0 < accel → ∃ row filament covered,
      g.toolhead.Gained g'.toolhead row ∧ (h.queue ref).Gained (h'.queue ref) filament ∧
      g'.toolhead.finish? = some till ∧ (h'.queue ref).finish? = some till ∧
      time < till ∧ covered time = 0 ∧ Monotone covered ∧ (∀ x, covered x = 1 ↔ till ≤ x) ∧
      (∀ x ≥ time,
        g'.toolhead.ShowsBehind (g'.toolhead.size - row.length) x (linePoint start finish (covered x)) ∧
        ∀ i ≥ (h'.queue ref).size - filament.length, ∀ c ∈ (h'.queue ref).cursor? i,
          c.axisAt .x (x - c.current.start) = from_ + distance * covered x) ∧
      ∀ s ∈ filament, s.direction.y ≠ 0 ↔ 0 < distance) ∧
    (maxVelocity ≤ 0 ∨ accel = 0 → g'.toolhead = g.toolhead ∧ h'.queue ref = h.queue ref ∧ till = time) := by
  obtain ⟨htiming, htill, happend⟩ := queueMove_ok hline hmove
  have hlength : timing.distance = lineLength start finish := by rw [htiming]; rfl
  have hmoves : timing.distance ≠ 0 := by rw [hlength]; exact (lineLength_pos hline).ne'
  have hfed := queueExtrusion_ok hmoves hdistance hextrude
  refine ⟨fun hv ha => ?_, fun hstill => ?_⟩
  · obtain ⟨hb, -, haccel, hlimit⟩ := lineTiming_balanced hline hv ha
    rw [← htiming] at hb haccel hlimit
    have hb' := hb.scaled (distance / timing.distance)
    obtain ⟨hgained, hfinish, hreads⟩ := along_queued hb happend
    obtain ⟨hgained', hfinish', hreads'⟩ := along_queued hb' hfed
    have hrest := hb.restToRest (haccel ▸ ha) hlimit time
    rw [← htill] at hrest
    refine ⟨_, _, timing.covered time, hgained, hgained', ?_, ?_, ?_, (hrest.waits time le_rfl).1, hrest.advances,
      hrest.arrives, fun x hx => ⟨?_, ?_⟩, fun s hs => ?_⟩
    · rw [hfinish, htill]
    · rw [hfinish', total_scaled, htill]
    · rw [htill]
      exact lt_add_of_pos_right time hb.total_pos
    · have hread := hreads x hx
      rwa [ahead_heading hline, ← hlength] at hread
    · intro i hi c hc
      have hpoint := hreads' x hx i hi c hc
      rw [Cursor.axisAt, hpoint, travelled_scaled, covered]
      simp only [Coord.get, Coord.ahead]
      ring
    · rw [(hb'.rides s hs).direction]
      simp
  · obtain ⟨hup, hlevel, hdown⟩ : timing.accelTime = 0 ∧ timing.cruiseTime = 0 ∧ timing.decelTime = 0 := by
      rw [htiming]
      exact lineTiming_still hstill
    rw [append, segments_along_nil ⟨hup, hlevel, hdown⟩] at happend
    rw [append, segments_along_nil (t := timing.scaled _) ⟨hup, hlevel, hdown⟩] at hfed
    refine ⟨(Prod.mk.inj happend).1.symm, (Prod.mk.inj hfed).1.symm, ?_⟩
    rw [htill, total, hup, hlevel, hdown]
    simp

/-- While the toolhead moves by 5 mm, 1 mm of filament is taken back from where it stands at 4 mm. -/
theorem queueExtrusion_keeps_step_back : (⟨0, 0, 0⟩ : Coord ℝ) ≠ ⟨3, 4, 0⟩ ∧ ∃ g' till timing h' n,
    (StepGenerator.empty : StepGenerator ℝ).queueMove 1 ⟨0, 0, 0⟩ ⟨3, 4, 0⟩ 2 1 = (g', .ok (till, timing)) ∧
      (StepGenerator.empty : StepGenerator ℝ).queueExtrusion (.extra "e") 1 timing 4 (-1) = (h', none) ∧
      n < (h'.queue (.extra "e")).size ∧ ∀ i ≥ n, ∀ c ∈ (h'.queue (.extra "e")).cursor? i,
        c.axisAt .x (1 - c.current.start) = 4 ∧ c.axisAt .x (till - c.current.start) = 3 := by
  have hline : (⟨0, 0, 0⟩ : Coord ℝ) ≠ ⟨3, 4, 0⟩ := by simp
  obtain ⟨g', hmove⟩ := queueMove_of_endsBy (g := StepGenerator.empty) hline (endsBy_empty ⟨_, 1⟩) 2 1
  have hends : ((StepGenerator.empty : StepGenerator ℝ).queue (.extra "e")).EndsBy ⟨⟨4, 0, 0⟩, 1⟩ := endsBy_empty _
  have hextrude := queueExtrusion_of_endsBy hends (lineTiming ⟨0, 0, 0⟩ ⟨3, 4, 0⟩ 2 1) (-1)
  obtain ⟨hkeeps, -⟩ := queueExtrusion_keeps_step hline (by norm_num) hmove (Prod.ext rfl hextrude)
  obtain ⟨row, filament, covered, -, hgained, -, -, hlt, hzero, -, harrives, hreads, -⟩ := hkeeps two_pos one_pos
  refine ⟨hline, g', _, _, _, _, hmove, Prod.ext rfl hextrude, hgained.lt_size, fun i hi c hc => ⟨?_, ?_⟩⟩
  · have hread := (hreads 1 le_rfl).2 i hi c hc
    rw [hread, hzero]
    norm_num
  · have hread := (hreads _ hlt.le).2 i hi c hc
    rw [hread, (harrives _).2 le_rfl]
    norm_num

end Extrusion

/-- A generator whose filament stands at 2 mm from 2 s on. -/
def fed : StepGenerator ℚ :=
  { StepGenerator.empty with extras := [("e", Queue.after [.append ⟨1, 0, 1, 0, ⟨2, 0, 0⟩, ⟨0, 0, 0⟩, 0, 0, 0⟩])] }

/-- The timing of a move without a speed. -/
def stalled : Timing ℚ := ⟨1, 0, 0, 0, 0, 100⟩

/-- A move without a speed is accepted, and so is its extrusion, but no filament is moved. -/
theorem not_queueExtrusion_keeps_step_stalled :
    (fed.queueMove 2 ⟨0, 0, 0⟩ ⟨1, 0, 0⟩ 0 100).2.toOption = some (2, stalled) ∧
    (fed.queueExtrusion (.extra "e") 2 stalled 2 (1 / 2)).2.isNone = true ∧
    (fed.queue (.extra "e")).size = 2 ∧ ∀ i < 2,
      ∀ c ∈ ((fed.queueExtrusion (.extra "e") 2 stalled 2 (1 / 2)).1.queue (.extra "e")).cursor? i,
        c.axisAt .x (2 - c.current.start) ≠ 2 + 1 / 2 := by
  refine ⟨?_, ?_, ?_, ?_⟩ <;> decide +kernel

end PrinterMotion.StepGenerator
