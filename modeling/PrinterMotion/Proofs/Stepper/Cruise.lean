/-
A move at constant speed. A stepper that has not moved looks for a boundary behind it first, so it takes
its first step up only once it is beyond the first boundary by more than the margin that tells a turn.
From then on it has taken, behind every flush, one step for each boundary it has come to, at the time the
move passes it. A move that ends within the margin of the first boundary takes no step at all.
-/
import PrinterMotion.Proofs.Stepper.Climb
import PrinterMotion.Proofs.Stepper.Evaluation
import PrinterMotion.Proofs.Stepper.Trajectory

namespace PrinterMotion

variable {F : Type} [Exact F]

namespace Queue

/-! ## The queue of a move at constant speed -/

/-- A move at speed `v` up an axis that lasts no longer than a thousand million seconds. -/
structure Trapezoid.Cruises (t : Trapezoid F) (axis : Axis) (v : F) : Prop where
  accelTime : t.accelTime = 0
  decelTime : t.decelTime = 0
  cruise_pos : 0 < t.cruiseTime
  cruise_le : t.cruiseTime ≤ 1000000000
  start_nonneg : 0 ≤ t.start
  speed : t.direction.get axis * t.cruiseVelocity = v

/-- The phase of constant speed, when there is none before it. -/
def Trapezoid.level (t : Trapezoid F) : Segment F :=
  ⟨t.start, t.cruiseTime, t.cruiseVelocity, 0.0, t.position, t.direction, .cruise⟩

/-- The move, with the hold in front of it. -/
def cruising (t : Trapezoid F) : Queue F :=
  ⟨#[.hold (t.start - holdTime) holdTime t.position, t.level], [], none⟩

variable {t : Trapezoid F} {axis : Axis} {v : F}

theorem append_cruising (h : t.Cruises axis v) : Queue.empty.append t = (cruising t, none) := by
  have hup : ¬ (0 : F) < t.accelTime := by rw [h.accelTime]; exact lt_irrefl 0
  have hdown : ¬ (0 : F) < t.decelTime := by rw [h.decelTime]; exact lt_irrefl 0
  have hseg : t.segments = [t.level] := by
    simp [Trapezoid.segments, Trapezoid.segments.after, hup, hdown, h.cruise_pos, Trapezoid.level]
  have hadd : Queue.empty.add t.level = .ok (cruising t) := by
    have hnonneg : ¬ t.cruiseTime < 0 := not_lt.2 h.cruise_pos.le
    simp [add, Queue.empty, cruising, Trapezoid.level, hnonneg]
  simp [append, hseg, addAll, hadd]

theorem holdTime_eq : (holdTime : F) = 1 := by norm_num [holdTime]

theorem cruising_cases {i : Nat} {m : Segment F} (h : (cruising t).active[i]? = some m) :
    i = 0 ∧ m = .hold (t.start - holdTime) holdTime t.position ∨ i = 1 ∧ m = t.level := by
  match i with
  | 0 => cases h; exact .inl ⟨rfl, rfl⟩
  | 1 => cases h; exact .inr ⟨rfl, rfl⟩
  | i + 2 => cases h

theorem hold_finish (t : Trapezoid F) :
    (Segment.hold (t.start - holdTime) holdTime t.position).finish = t.start := sub_add_cancel _ _

theorem cruising_contiguous (h : t.Cruises axis v) : Contiguous (cruising t).active := by
  refine ⟨fun i m hm => ?_, fun i m n hm hn => ?_⟩
  · rcases cruising_cases hm with ⟨-, rfl⟩ | ⟨-, rfl⟩
    · show (0 : F) ≤ holdTime
      rw [holdTime_eq]; exact zero_le_one
    · exact h.cruise_pos.le
  · rcases cruising_cases hm with ⟨rfl, rfl⟩ | ⟨rfl, rfl⟩ <;> rcases cruising_cases hn with ⟨hi, rfl⟩ | ⟨hi, rfl⟩
    · cases hi
    · exact (hold_finish t).symm
    · cases hi
    · cases hi

theorem cruising_finish (t : Trapezoid F) : (cruising t).finish? = some (t.start + t.cruiseTime) := rfl

/-- The position along the move. -/
theorem position_level (h : t.Cruises axis v) {c : Cursor F} (hc : c.current = t.level) :
    (Model.linear axis).kinematics.position c = Search.line (t.position.get axis) v := by
  funext time
  show c.current.axisAt axis time = _
  rw [hc, Search.line, ← h.speed]
  simp only [Segment.axisAt, Segment.distanceAt, Trapezoid.level, Scalar.zero_literal]
  ring

end Queue

namespace StepTracker

/-! ## One flush -/

open Queue

variable {t : Trapezoid F} {axis : Axis} {v : F} {k : Kinematics F} {q : Queue F}

/-- A visit that ends before it begins. -/
theorem searchSegment_empty {w : Visit F} (h : w.stop ≤ w.start) (s : StepTracker F) (steps : Array (Step F)) :
    s.searchSegment k q w steps = (s, .ok steps) := by
  rw [searchSegment_eq]
  cases hc : q.cursor? w.segment with
  | none => simp only [search?, hc, Option.bind_none]
  | some c =>
    have hrange : w.upper c.current ≤ w.lower c.current :=
      (min_le_left _ _).trans (h.trans (le_max_left _ _))
    rw [search?_eq hc rfl, if_pos hrange]

theorem linear_meets (h : t.Cruises axis v) (hv : 0 < v) : (AxisSet.single axis).meets t.direction = true := by
  have hdir : t.direction.get axis ≠ 0 := by
    rintro hzero
    have := h.speed
    rw [hzero, zero_mul] at this
    exact hv.ne this
  cases axis <;> simpa [AxisSet.meets, AxisSet.single, Coord.get] using hdir

theorem linear_rests (axis : Axis) : (AxisSet.single axis).meets (Coord.origin : Coord F) = false := by
  cases axis <;> simp [AxisSet.meets, AxisSet.single, Coord.origin]

/-- A move that the flush does not go beyond is searched from the last flush on. -/
theorem plan_level {scope : Visit.Scope F} (hmeets : scope.axes.meets t.direction = true) (hbefore : scope.before = 0)
    (hle : scope.time ≤ t.start + t.cruiseTime) (segs : Array (Segment F)) (forced : F) (skipped : Nat) :
    Visit.plan scope segs [t.level] 1 forced skipped = [⟨1, scope.flushed, scope.time, some scope.time⟩] := by
  have hmeets' : scope.axes.meets t.level.direction = true := hmeets
  have hend : scope.time ≤ t.level.finish := hle
  simp only [Visit.plan, hmeets', if_true, hbefore, Scalar.zero_literal, lt_self_iff_false, and_false, if_false,
    List.nil_append, hend]

/-- A flush searches the move if it reaches it. The hold in front of it may be visited, but not behind
the last flush. -/
theorem runVisits_cruising (h : t.Cruises axis v) (hv : 0 < v) (hk : k = (Model.linear axis).kinematics)
    {s : StepTracker F} {time : F} (hactive : s.lastActive ≤ s.flushed) (hlt : s.flushed < time)
    (hle : time ≤ t.start + t.cruiseTime) (s₀ : StepTracker F) (steps : Array (Step F)) :
    runVisits k (cruising t) (s.visits k (cruising t) time) s₀ steps =
    if t.start < time then runVisits k (cruising t) [⟨1, s.flushed, time, some time⟩] s₀ steps
    else (s₀, .ok steps) := by
  obtain ⟨i, m, hfirst, hm, hfin, hbegun⟩ :=
    exists_firstAfter (cruising_contiguous h) (hlt.trans_le hle) (cruising_finish t)
  have hmeets : k.axes.meets t.direction = true := by rw [hk]; exact linear_meets h hv
  have hbefore : k.before = 0 := by rw [hk]; exact Scalar.zero_literal
  have hafter : k.after = 0 := by rw [hk]; exact Scalar.zero_literal
  simp only [visits, hfirst, hbefore, hafter]
  rcases cruising_cases hm with ⟨rfl, rfl⟩ | ⟨rfl, rfl⟩
  · have hrests : k.axes.meets (Segment.hold (t.start - holdTime) holdTime t.position).direction = false := by
      rw [hk]; exact linear_rests axis
    have hlist : (cruising t).active.toList.drop 0 =
      [.hold (t.start - holdTime) holdTime t.position, t.level] := rfl
    -- the hold was active up to the last flush, and a visit of it stops there
    have hempty : ∀ rest steps', runVisits k (cruising t)
        ((if (Segment.hold (t.start - holdTime) holdTime t.position).start < s.lastActive then
          [⟨0, s.flushed, min s.lastActive time, none⟩] else []) ++ rest) s₀ steps' =
        runVisits k (cruising t) rest s₀ steps' := by
      intro rest steps'
      split
      · rw [List.singleton_append, runVisits_cons, searchSegment_empty ((min_le_left _ _).trans hactive)]
        rfl
      · rfl
    rw [hlist, Visit.plan]
    simp only [hrests, Bool.false_eq_true, if_false, add_zero, hold_finish, Scalar.min_eq]
    rw [plan_level hmeets rfl hle]
    by_cases ht : t.start < time
    · rw [if_pos ht, if_neg (not_le.2 ht), hempty]
    · have hnone := hempty [] steps
      rw [List.append_nil] at hnone
      rw [if_neg ht, if_pos (not_lt.1 ht), hnone]
      rfl
  · have hstart : t.start < time := by
      rcases hbegun with hi | hstart
      · cases hi
      · exact hstart.trans_lt hlt
    have hlist : (cruising t).active.toList.drop 1 = [t.level] := rfl
    rw [if_pos hstart, hlist, plan_level hmeets rfl hle]

/-- A step at the boundary `B` is taken as the line passes it. If a flush has ended at the first boundary,
or within the margin behind it, that step is taken right behind the flush. -/
def Punctual (start x v d : F) (times : List F) (B time : F) : Prop :=
  |time - (start + (B - x) / v)| ≤ Search.timeTolerance + Search.timeTolerance / v ∨
    ∃ u ∈ times, B ≤ Search.line x v (u - start) ∧ Search.line x v (u - start) ≤ x + d + Search.turnMargin ∧
      u < time ∧ time ≤ u + Search.timeTolerance

/-- A stepper between two of the flushes at `times`, and the steps it has taken so far. -/
structure Underway (t : Trapezoid F) (axis : Axis) (v d : F) (times : List F) (s : StepTracker F)
    (steps : List (Step F)) : Prop where
  stepDistance : s.stepDistance = d
  flushed_le : s.flushed ≤ t.start + t.cruiseTime
  lastActive_le : s.lastActive ≤ s.flushed
  last_le : ∀ l ∈ s.lastStep, l ≤ s.flushed
  seen : t.start < s.flushed → s.flushed ∈ times
  pace : Search.Pace (Punctual t.start (t.position.get axis) v d times) (t.position.get axis) v d
    (max (s.flushed - t.start) 0) s.forward s.commanded steps

variable {d : F} {times : List F} {s : StepTracker F} {steps : List (Step F)}

theorem Strikes.punctual {start x r r' B time : F} (hst : Search.Steady v d r r')
    (hseen : 0 < r → start + r ∈ times) (hx : x < B)
    (hin : Search.line x v r < B ∨ Search.line x v r ≤ x + d + Search.turnMargin)
    (h : Search.Strikes x v r r' B (time - start)) : Punctual start x v d times B time := by
  have hv := hst.speed_pos
  rcases h.near with hnear | ⟨h1, h2, h3, h4⟩
  · left
    have hline : Search.line x v (time - start) - B = v * (time - (start + (B - x) / v)) := by
      unfold Search.line; field_simp; ring
    rw [hline, abs_mul, abs_of_pos hv, mul_comm, ← le_div_iff₀ hv] at hnear
    refine hnear.trans (le_of_eq ?_)
    field_simp
    ring
  · right
    -- the boundary is ahead of the start of the move, so a flush has ended where the range starts
    have hr : 0 < r := by
      refine hst.lt_of_line_lt (c := x) (lt_of_lt_of_le ?_ h1)
      rw [Search.line, mul_zero, add_zero]
      exact hx
    refine ⟨start + r, hseen hr, ?_⟩
    rw [add_sub_cancel_left]
    refine ⟨h1, ?_, by linarith, by linarith⟩
    rcases hin with hin | hin
    · exact absurd h1 (not_le.2 hin)
    · exact hin

/-- The range of a flush along the move. -/
theorem steady_of_cruises (h : t.Cruises axis v) (hv : 0 < v) (hfine : 1000 * Search.timeTolerance ≤ d)
    (hslow : 10 * (v * Search.timeTolerance) ≤ d) (flushed : F) {time : F} (hle : time ≤ t.start + t.cruiseTime) :
    Search.Steady v d (max (flushed - t.start) 0) (time - t.start) := by
  refine ⟨hv, hfine, hslow, le_max_right _ _, ?_⟩
  have hlong : (1000000000 : F) ≤ 2 ^ 60 * Search.timeTolerance := by norm_num [Search.timeTolerance]
  linarith [h.cruise_le, le_max_right (flushed - t.start) 0]

/-- The move holds fewer steps than a search may take. -/
theorem line_lt_limit (h : t.Cruises axis v) (hv : 0 < v) (hfine : 1000 * Search.timeTolerance ≤ d)
    (hslow : 10 * (v * Search.timeTolerance) ≤ d) {r : F} (hr : r ≤ t.cruiseTime) (x : F) :
    Search.line x v r < x + (2 ^ 62 - 1 : Nat) * d := by
  have hε := Search.timeTolerance_pos (F := F)
  have hway : v * r ≤ v * 1000000000 := mul_le_mul_of_nonneg_left (hr.trans h.cruise_le) hv.le
  have htol : (Search.timeTolerance : F) = 1 / 1000000000 := by norm_num [Search.timeTolerance]
  have hcast : ((2 ^ 62 - 1 : Nat) : F) = 4611686018427387903 := by norm_num
  rw [htol] at hfine hslow
  rw [Search.line, hcast]
  linarith

/-- The search of the move succeeds and keeps pace with it. -/
theorem Underway.searchSegment (ht : t.Cruises axis v) (hv : 0 < v) (hk : k = (Model.linear axis).kinematics)
    (hfine : 1000 * Search.timeTolerance ≤ d) (hslow : 10 * (v * Search.timeTolerance) ≤ d)
    (h : Underway t axis v d times s steps) {time : F} (hlt : s.flushed < time) (hstart : t.start < time)
    (hle : time ≤ t.start + t.cruiseTime) :
    ∃ s' new, { s with flushed := time }.searchSegment k (cruising t) ⟨1, s.flushed, time, some time⟩ #[] =
        (s', .ok new) ∧ s'.stepDistance = d ∧ s'.flushed = time ∧
      Search.Pace (Punctual t.start (t.position.get axis) v d times) (t.position.get axis) v d (time - t.start)
        s'.forward s'.commanded (steps ++ new.toList) := by
  obtain ⟨c, hc, hcur⟩ := Queue.exists_cursor (show (cruising t).active[1]? = some t.level from rfl)
  have hst := steady_of_cruises ht hv hfine hslow s.flushed hle
  have hlower : (⟨1, s.flushed, time, some time⟩ : Visit F).lower t.level - t.start =
      max (s.flushed - t.start) 0 := by
    show max s.flushed t.start - t.start = _
    rw [← max_sub_sub_right, sub_self]
  have hupper : (⟨1, s.flushed, time, some time⟩ : Visit F).upper t.level = time := min_eq_left hle
  have hopen : ¬ (⟨1, s.flushed, time, some time⟩ : Visit F).upper t.level ≤
      (⟨1, s.flushed, time, some time⟩ : Visit F).lower t.level := by
    rw [hupper, not_le]
    exact max_lt hlt hstart
  have hseen : 0 < max (s.flushed - t.start) 0 → t.start + max (s.flushed - t.start) 0 ∈ times := by
    intro hpos
    have hlate : t.start < s.flushed := by
      rcases lt_max_iff.1 hpos with hpos | hpos
      · exact sub_pos.1 hpos
      · exact absurd hpos (lt_irrefl 0)
    rw [max_eq_left (by linarith), add_sub_cancel]
    exact h.seen hlate
  obtain ⟨new, found, h1, h2, h3⟩ := h.pace.run hst (max_lt (by linarith) (by linarith)) t.start
    (2 ^ 62 - 1) #[] s.lastStep
    (fun l hl => (h.last_le l hl).trans (by linarith [le_max_left (s.flushed - t.start) 0]))
    (line_lt_limit ht hv hfine hslow (by linarith) _)
    (fun B time hB hin hstrikes => Strikes.punctual hst hseen (by linarith [hst.step_pos]) hin hstrikes)
  have hsearch : { s with flushed := time }.search? k (cruising t) ⟨1, s.flushed, time, some time⟩ #[] =
      some (Search.run (fun τ => .ok (Search.line (t.position.get axis) v τ)) t.start d (time - t.start)
        (2 ^ 62 - 1 + 1) (.begin s.commanded d (max (s.flushed - t.start) 0) (time - t.start) s.forward) #[]
        s.lastStep) := by
    rw [search?_eq hc hcur, if_neg hopen, hk, Model.evaluate_eq, position_level ht hcur, hupper, ← hlower,
      ← h.stepDistance]
    rfl
  rw [searchSegment_eq, hsearch]
  simp only [settle, h2]
  refine ⟨_, _, rfl, h.stepDistance, rfl, ?_⟩
  show Search.Pace _ _ _ _ _ found.forward (found.target - Stepper.signed s.stepDistance found.forward) _
  rw [h1, h.stepDistance]
  exact h3

/-- A flush along the move succeeds and leaves the stepper under way. -/
theorem Underway.advance (ht : t.Cruises axis v) (hv : 0 < v) (hk : k = (Model.linear axis).kinematics)
    (hfine : 1000 * Search.timeTolerance ≤ d) (hslow : 10 * (v * Search.timeTolerance) ≤ d)
    (h : Underway t axis v d times s steps) {time : F} (hmem : time ∈ times)
    (hle : time ≤ t.start + t.cruiseTime) :
    ∃ s' new, s.advance k (some (cruising t)) time = (s', .ok new) ∧ s'.flushed = max s.flushed time ∧
      Underway t axis v d times s' (steps ++ new.toList) := by
  by_cases hflushed : time ≤ s.flushed
  · refine ⟨s, #[], by simp only [StepTracker.advance, if_pos hflushed], (max_eq_left hflushed).symm, ?_⟩
    simpa using h
  have hlt := not_le.1 hflushed
  have hqueue : ∀ q ∈ some (cruising t), Contiguous q.active := by rintro q ⟨⟩; exact cruising_contiguous ht
  have hlast := (advance_extended k time hqueue h.last_le).1.last_le h.last_le (advance_flushed s k _ time).1
  have hrun : s.advance k (some (cruising t)) time =
      if t.start < time then
        runVisits k (cruising t) [⟨1, s.flushed, time, some time⟩] { s with flushed := time } #[]
      else ({ s with flushed := time }, .ok #[]) := by
    rw [← runVisits_cruising ht hv hk h.lastActive_le hlt hle]
    simp only [StepTracker.advance, if_neg hflushed, cruising_finish, if_pos hle]
  by_cases hstart : t.start < time
  · obtain ⟨s', new, hs, hdist, hflush, hpace⟩ := h.searchSegment ht hv hk hfine hslow hlt hstart hle
    rw [if_pos hstart, runVisits_cons, hs] at hrun
    replace hrun : s.advance k (some (cruising t)) time = ({ s' with lastActive := time }, .ok new) := hrun
    rw [hrun] at hlast
    refine ⟨_, _, hrun, hflush.trans (max_eq_right hlt.le).symm, hdist, hflush.trans_le hle, hflush.ge, hlast,
      fun _ => hflush ▸ hmem, ?_⟩
    show Search.Pace _ _ _ _ (max (s'.flushed - t.start) 0) _ _ _
    rw [hflush, max_eq_left (by linarith)]
    exact hpace
  · rw [if_neg hstart] at hrun
    rw [hrun] at hlast
    refine ⟨_, _, hrun, (max_eq_right hlt.le).symm, h.stepDistance, hle, h.lastActive_le.trans hlt.le, hlast,
      fun hs => absurd hs hstart, ?_⟩
    have hzero : max (time - t.start) 0 = max (s.flushed - t.start) 0 := by
      rw [max_eq_right (by linarith), max_eq_right (by linarith)]
    show Search.Pace _ _ _ _ (max (time - t.start) 0) _ _ _
    rw [hzero, List.append_nil]
    exact h.pace

end StepTracker

namespace Stepper

open Queue

/-! ## All flushes of the move -/

/-- The steps of flushes at the given times, unless one of them fails. -/
def flushAll (queue : Option (Queue F)) : List F → Stepper F → Except (StepError F) (List (Step F))
  | [], _ => .ok []
  | time :: rest, s =>
    match s.advance queue time with
    | (s', .ok steps) => (flushAll queue rest s').map (steps.toList ++ ·)
    | (_, .error e) => .error e

variable {t : Trapezoid F} {axis : Axis} {v d : F} {times : List F}

theorem flushAll_underway (ht : t.Cruises axis v) (hv : 0 < v) (hfine : 1000 * Search.timeTolerance ≤ d)
    (hslow : 10 * (v * Search.timeTolerance) ≤ d) : ∀ (us : List F) {s : Stepper F} {steps : List (Step F)},
    s.model = .linear axis → s.toStepTracker.Underway t axis v d times steps →
    (∀ u ∈ us, u ∈ times ∧ u ≤ t.start + t.cruiseTime) →
    ∃ (new : List (Step F)) (tracker : StepTracker F), s.flushAll (some (cruising t)) us = .ok new ∧
      s.flushed ≤ tracker.flushed ∧ (∀ u ∈ us, u ≤ tracker.flushed) ∧
      tracker.Underway t axis v d times (steps ++ new)
  | [], s, steps, _, h, _ => ⟨[], s.toStepTracker, rfl, le_refl _, nofun, by rw [List.append_nil]; exact h⟩
  | u :: us, s, steps, hmodel, h, hus => by
    obtain ⟨hmem, hle⟩ := hus u List.mem_cons_self
    have hk : s.model.kinematics = (Model.linear axis).kinematics := by rw [hmodel]
    obtain ⟨s', new, hs, hflushed, h'⟩ := h.advance ht hv hk hfine hslow hmem hle
    obtain ⟨more, tracker, hmore, hle', hall, h''⟩ := flushAll_underway ht hv hfine hslow us
      (s := { s with toStepTracker := s' }) hmodel h' fun u hu => hus u (List.mem_cons_of_mem _ hu)
    obtain ⟨h1, h2⟩ := max_le_iff.1 (hflushed.symm.trans_le hle')
    refine ⟨new.toList ++ more, tracker, ?_, h1, List.forall_mem_cons.2 ⟨h2, hall⟩,
      by rw [← List.append_assoc]; exact h''⟩
    simp only [flushAll, Stepper.advance, hs, hmore]
    rfl

/-- A stepper that was set to the start of the move is under way before its first flush. -/
theorem new_underway (ht : t.Cruises axis v) (hd : 0 < d) (name : String) :
    ((Stepper.new name d (.linear axis)).setPosition t.position).toStepTracker.Underway t axis v d times [] := by
  have hcommanded : ((Stepper.new name d (.linear axis)).setPosition t.position).commanded =
      t.position.get axis := by
    cases axis <;> simp [Stepper.setPosition, Stepper.new, Model.positionAt, Model.position, Cursor.single,
      Cursor.current, Cursor.queued, Segment.axisAt, Segment.hold, Coord.get, Coord.origin, Segment.distanceAt]
  have hzero : ((Stepper.new name d (.linear axis)).setPosition t.position).flushed = 0 := Scalar.zero_literal
  have hrest : max (0 - t.start) 0 = 0 := max_eq_right (by linarith [ht.start_nonneg])
  refine ⟨rfl, ?_, le_refl _, fun l hl => absurd hl (Option.not_mem_none l), fun h => ?_, ?_⟩
  · rw [hzero]
    linarith [ht.start_nonneg, ht.cruise_pos]
  · rw [hzero] at h
    exact absurd ht.start_nonneg (not_le.2 h)
  · rw [hcommanded, hzero, hrest]
    refine .waits ?_
    have := Search.tolerances (F := F)
    rw [Search.line, mul_zero, add_zero]
    linarith

/-- A stepper is set to the start of a move at constant speed, and the flushes go to the end of the move.
None of them fails, all steps lead up, from boundary to boundary, and each is taken as the move passes its
boundary. There is one step for each boundary the move comes to, unless it ends at the first one or within
the margin behind it: then there is none. And if only a flush ends there, the first step is taken right
behind that flush. -/
theorem cruise_steps (ht : t.Cruises axis v) (hv : 0 < v) (hd : 0.000001 ≤ d) (hslow : v * 0.00000001 ≤ d)
    (name : String) (times : List F) (hle : ∀ u ∈ times, u ≤ t.start + t.cruiseTime)
    (hend : t.start + t.cruiseTime ∈ times) :
    ∃ steps : List (Step F),
      ((Stepper.new name d (.linear axis)).setPosition t.position).flushAll (some (Queue.empty.append t).1) times =
        .ok steps ∧
      (v * t.cruiseTime ≤ d + 0.00000001 → steps = []) ∧
      (v * t.cruiseTime + 0.000000001 < d ∨ d + 0.00000001 < v * t.cruiseTime →
        steps.length * d ≤ v * t.cruiseTime + 0.000000001 ∧
        v * t.cruiseTime + 0.000000001 < (steps.length + 1) * d) ∧
      ∀ (k : Nat) (hk : k < steps.length),
        steps[k].forward = true ∧ steps[k].position = t.position.get axis + (k + 1) * d ∧
        (|steps[k].time - (t.start + (k + 1) * d / v)| ≤ 0.000000001 + 0.000000001 / v ∨
          k = 0 ∧ ∃ u ∈ times, d ≤ v * (u - t.start) ∧ v * (u - t.start) ≤ d + 0.00000001 ∧
            u < steps[k].time ∧ steps[k].time ≤ u + 0.000000001) := by
  have hε : (Search.timeTolerance : F) = 0.000000001 := rfl
  have hμ : (Search.turnMargin : F) = 0.00000001 := rfl
  have hfine : 1000 * Search.timeTolerance ≤ d := by rw [hε]; refine le_trans (le_of_eq ?_) hd; norm_num
  have hslow' : 10 * (v * Search.timeTolerance) ≤ d := by
    rw [hε]; refine le_trans (le_of_eq ?_) hslow; norm_num; ring
  have hpos : 0 < d := lt_of_lt_of_le (by norm_num) hd
  obtain ⟨steps, tracker, hsteps, -, hall, hunder⟩ := flushAll_underway ht hv hfine hslow' times rfl
    (new_underway ht hpos name) fun u hu => ⟨hu, hle u hu⟩
  have hflushed : tracker.flushed = t.start + t.cruiseTime := le_antisymm hunder.flushed_le (hall _ hend)
  have hpace := hunder.pace
  rw [hflushed, add_sub_cancel_left, max_eq_left ht.cruise_pos.le, List.nil_append] at hpace
  refine ⟨steps, by rw [append_cruising ht]; exact hsteps, ?_⟩
  rw [← hε, ← hμ]
  obtain ⟨hnone, hcount, hstroke⟩ := hpace.count hv.le ht.cruise_pos.le
  refine ⟨hnone, hcount, fun k hk => ?_⟩
  obtain ⟨hforward, hposition, hpunctual⟩ := hstroke k hk
  refine ⟨hforward, hposition.trans (by ring), ?_⟩
  rcases hpunctual with hnear | ⟨u, hu, h1, h2, h3, h4⟩
  · left
    have hboundary : t.position.get axis + d + k * d - t.position.get axis = (k + 1) * d := by ring
    rw [hboundary] at hnear
    exact hnear
  · right
    have hmargin := Search.turnMargin_eq (F := F)
    have hk0 : k = 0 := by
      -- the second boundary is a step length further, and the margin is shorter than that
      by_contra hne
      have hone : (1 : F) ≤ k := by exact_mod_cast Nat.one_le_iff_ne_zero.2 hne
      have := mul_le_mul_of_nonneg_right hone hpos.le
      linarith [Search.timeTolerance_pos (F := F)]
    rw [hk0, Nat.cast_zero, zero_mul, add_zero] at h1
    unfold Search.line at h1 h2
    exact ⟨hk0, u, hu, by linarith, by linarith, h3, h4⟩

/-- One second along the first axis, behind one second of rest. -/
def oneSecond (v : ℚ) : Trapezoid ℚ := ⟨1, 0, 1, 0, .origin, ⟨1, 0, 0⟩, 0, v, 0⟩

theorem oneSecond_cruises (v : ℚ) : (oneSecond v).Cruises .x v := by
  constructor <;> norm_num [oneSecond, Coord.get]

/-- Five steps of length two at speed ten, over two flushes of which the first ends between steps. -/
theorem cruise_steps_five : ∃ steps : List (Step ℚ),
    ((Stepper.new "x" 2 (.linear .x)).setPosition (oneSecond 10).position).flushAll
      (some (Queue.empty.append (oneSecond 10)).1) [3 / 2, 2] = .ok steps ∧ steps.length = 5 ∧
    ∀ (k : Nat) (hk : k < steps.length), steps[k].forward = true ∧ steps[k].position = (k + 1) * 2 := by
  obtain ⟨steps, hs, -, hcount, hsteps⟩ := cruise_steps (oneSecond_cruises 10) (by norm_num) (d := 2)
    (by norm_num) (by norm_num) "x" [3 / 2, 2] (by norm_num [oneSecond]) (by norm_num [oneSecond])
  refine ⟨steps, hs, ?_, fun k hk => ⟨(hsteps k hk).1, ?_⟩⟩
  swap
  · rw [(hsteps k hk).2.1]
    norm_num [oneSecond, Coord.get, Coord.origin]
  obtain ⟨hle, hlt⟩ := hcount (.inr (by norm_num [oneSecond]))
  norm_num [oneSecond] at hle hlt
  have h1 : (steps.length : ℚ) < 6 := by linarith
  have h2 : (4 : ℚ) < steps.length := by linarith
  have h3 : steps.length < 6 := by exact_mod_cast h1
  have h4 : 4 < steps.length := by exact_mod_cast h2
  omega

/-- A move of exactly one step length takes no step, although it comes to the first boundary. -/
theorem not_counted_one_step : ¬ ∀ (t : Trapezoid ℚ) (axis : Axis) (v d : ℚ) (name : String) (times : List ℚ),
    t.Cruises axis v → 0 < v → 0.000001 ≤ d → v * 0.00000001 ≤ d → times.Pairwise (· < ·) →
    times.getLast? = some (t.start + t.cruiseTime) →
    ∃ steps : List (Step ℚ),
      ((Stepper.new name d (.linear axis)).setPosition t.position).flushAll (some (Queue.empty.append t).1) times =
        .ok steps ∧
      steps.length * d ≤ v * t.cruiseTime + 0.000000001 ∧
      v * t.cruiseTime + 0.000000001 < (steps.length + 1) * d := by
  intro h
  obtain ⟨steps, hs, -, hlt⟩ := h (oneSecond 1) .x 1 1 "x" [2] (oneSecond_cruises 1) (by norm_num) (by norm_num)
    (by norm_num) (List.pairwise_singleton _ _) (by norm_num [oneSecond])
  have hnone : (((Stepper.new "x" (1 : ℚ) (.linear .x)).setPosition (oneSecond 1).position).flushAll
      (some (Queue.empty.append (oneSecond 1)).1) [2]).toOption.map List.length = some 0 := by decide +kernel
  rw [hs] at hnone
  have hlength : steps.length = 0 := Option.some.inj hnone
  rw [hlength] at hlt
  norm_num [oneSecond] at hlt

end Stepper

end PrinterMotion
