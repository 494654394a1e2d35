/-
Pressure advance over the real numbers. The readings of the gauge of a window are an antiderivative: between
the moments at which segments begin and end they grow at the rate of the advanced position, weighted by the
distance from the pivot, and at those moments they do not jump. So the position of an extruder stepper is
the mean of the advanced position over its window, weighted by a triangle, whatever row of segments the
window covers.
-/
import Mathlib.Analysis.Calculus.Deriv.Add
import Mathlib.Analysis.Calculus.Deriv.Mul
import Mathlib.Analysis.Calculus.Deriv.Pow
import Mathlib.Analysis.Calculus.Deriv.Shift
import Mathlib.Analysis.SpecialFunctions.Integrals.Basic
import Mathlib.MeasureTheory.Integral.DivergenceTheorem
import PrinterMotion.Proofs.Kinematics.Sight
import PrinterMotion.Proofs.Motion.Tracing

namespace PrinterMotion

open MeasureTheory

/-! ## The advanced position -/

/-- `p` stands in front of the row, is the filament position of each segment while it runs, with `advance`
seconds of its velocity if the segment extrudes, and stands behind the row where the last segment ends. At
the moments at which segments begin and end it may be anything. -/
structure Advances (advance : ℝ) (p : ℝ → ℝ) (row : List (Segment ℝ)) : Prop where
  ahead : ∀ first ∈ row.head?, ∀ x < first.start, p x = first.position.x
  along : ∀ s ∈ row, ∀ x, s.start < x → x < s.finish → p x = s.position.x + s.distanceAt (x - s.start) +
    if s.direction.y ≠ 0 then advance * s.velocityAt (x - s.start) else 0
  behind : ∀ last ∈ row.getLast?, ∀ x, last.finish < x → p x = last.target.x

/-- The moments at which segments of a row begin and end. -/
def marks (row : List (Segment ℝ)) : Set ℝ := {x | ∃ s ∈ row, x = s.start ∨ x = s.finish}

theorem marks_countable (row : List (Segment ℝ)) : (marks row).Countable := by
  have hmarks : marks row = {x | x ∈ row.map Segment.start ++ row.map Segment.finish} := by
    ext x
    simp only [marks, Set.mem_ofPred_eq, List.mem_append, List.mem_map]
    constructor
    · rintro ⟨s, hs, rfl | rfl⟩
      · exact .inl ⟨s, hs, rfl⟩
      · exact .inr ⟨s, hs, rfl⟩
    · rintro (⟨s, hs, rfl⟩ | ⟨s, hs, rfl⟩)
      · exact ⟨s, hs, .inl rfl⟩
      · exact ⟨s, hs, .inr rfl⟩
  rw [hmarks]
  exact (List.finite_toSet _).countable

section

variable {a : Stand ℝ} {row : List (Segment ℝ)} {first : Segment ℝ} {x : ℝ}

/-- Any other moment lies in front of the row, inside one of its segments, or behind it. -/
theorem Joined.locate_of_notMem (hf : row.head? = some first) (hj : Joined ⟨first.position, first.start⟩ row)
    (hx : x ∉ marks row) : x < first.start ∨ (∃ s ∈ row, s.start < x ∧ x < s.finish) ∨
      ∃ last ∈ row.getLast?, last.finish < x := by
  have hmark : ∀ s ∈ row, x ≠ s.start ∧ x ≠ s.finish :=
    fun s hs => ⟨fun h => hx ⟨s, hs, .inl h⟩, fun h => hx ⟨s, hs, .inr h⟩⟩
  have hmem := List.mem_of_head? hf
  have hlast := List.getLast?_eq_some_getLast (List.ne_nil_of_mem hmem)
  rcases hj.locate x with hle | ⟨s, hs, hlow, hupp⟩ | hge
  · exact .inl (lt_of_le_of_ne hle (hmark first hmem).1)
  · exact .inr (.inl ⟨s, hs, lt_of_le_of_ne hlow (hmark s hs).1.symm, lt_of_le_of_ne hupp (hmark s hs).2⟩)
  · rw [Stand.after_of_getLast? _ hlast] at hge
    exact .inr (.inr ⟨_, hlast, lt_of_le_of_ne hge (hmark _ (List.mem_of_getLast? hlast)).2.symm⟩)

/-! ## Readings as functions of time -/

namespace Gauge

variable {γ δ : Gauge ℝ}

/-- A gauge to which nothing is added shows, between the marks, what is there at the moment. -/
theorem read_cases (hstep : ∀ p s, δ.step p s = 0) (hf : row.head? = some first)
    (hj : Joined ⟨first.position, first.start⟩ row) :
    (x < first.start → δ.read .left first.position row x = δ.rest first.position x) ∧
      (∀ s ∈ row, s.start < x → x < s.finish →
        ∃ p, δ.read .left first.position row x = δ.inside p s (x - s.start)) ∧
          ∀ last ∈ row.getLast?, last.finish < x → δ.read .left first.position row x = δ.rest last.target x := by
  refine ⟨fun hx => read_of_before fun s hs => hx.le.trans (hj.le_start s hs), fun s hs hlow hupp => ?_,
    fun last hlast hx => ?_⟩
  · obtain ⟨done, later, rfl⟩ := List.append_of_mem hs
    obtain ⟨hdone, hrest⟩ := hj.of_append
    have hbehind : ∀ u ∈ done, 0 ≤ u.duration ∧ ¬ Side.left.Before x u.finish := by
      refine fun u hu => ⟨hdone.duration_nonneg u hu, Side.not_before_of_lt ?_⟩
      calc u.finish ≤ _ := hdone.finish_le_after u hu
        _ = s.start := hrest.1.symm
        _ < x := hlow
    refine ⟨endPlace first.position done, ?_⟩
    rw [read_append_of_behind hbehind, passed_of_step_zero hstep, zero_add, read,
      if_neg (Side.not_before_of_lt hlow), if_pos (Side.before_left.2 hupp.le)]
  · have hbehind : ∀ u ∈ row, 0 ≤ u.duration ∧ ¬ Side.left.Before x u.finish := by
      refine fun u hu => ⟨hj.duration_nonneg u hu, Side.not_before_of_lt ?_⟩
      have hle := hj.finish_le_after u hu
      rw [Stand.after_of_getLast? _ hlast] at hle
      exact hle.trans_lt hx
    have hend := Stand.after_place ⟨first.position, first.start⟩ row
    rw [Stand.after_of_getLast? _ hlast] at hend
    rw [read_of_behind hbehind, passed_of_step_zero hstep, zero_add, ← hend]

/-- `δ` shows the rate at which the readings of `γ` grow. -/
structure Rate (γ δ : Gauge ℝ) : Prop where
  rest : ∀ p x, HasDerivAt (γ.rest p) (δ.rest p x) x
  inside : ∀ p s t, HasDerivAt (γ.inside p s) (δ.inside p s t) t
  step : ∀ p s, δ.step p s = 0
  rest_continuous : ∀ p, Continuous (δ.rest p)
  inside_continuous : ∀ p s, Continuous (δ.inside p s)

namespace Rate

/-- Readings that do not jump are continuous. -/
theorem continuous_read (h : γ.Rate δ) (hγ : γ.Smooth) : ∀ {a : Stand ℝ} {row : List (Segment ℝ)} (p : Coord ℝ),
    Joined a row → Continuous (γ.read .left p row)
  | _, [], p, _ => continuous_iff_continuousAt.2 fun x => (h.rest p x).continuousAt
  | _, s :: rest, p, ⟨_, hd, hj⟩ => by
    have ih := h.continuous_read hγ s.target hj
    have hstill : Continuous (γ.rest p) := continuous_iff_continuousAt.2 fun x => (h.rest p x).continuousAt
    have hmoving : Continuous fun x => γ.inside p s (x - s.start) :=
      (continuous_iff_continuousAt.2 fun t => (h.inside p s t).continuousAt).comp (continuous_sub_right _)
    have hpassed : Continuous fun x => if x ≤ s.finish then γ.inside p s (x - s.start)
        else γ.step p s + γ.read .left s.target rest x := by
      refine hmoving.if_le (continuous_const.add ih) continuous_id continuous_const ?_
      rintro x rfl
      have hnext : γ.read .left s.target rest s.finish = γ.rest s.target s.finish :=
        read_of_before fun u hu => hj.le_start u hu
      rw [hnext, ← hγ.inside_duration, Segment.finish, add_sub_cancel_left]
    refine hstill.if_le hpassed continuous_id continuous_const ?_
    rintro x rfl
    rw [if_pos (Side.before_left.2 (Segment.start_le_finish hd)), sub_self, hγ.inside_zero]

/-- Between the marks readings grow at the rate that is shown. -/
theorem hasDerivAt_read (h : γ.Rate δ) : ∀ {row : List (Segment ℝ)} (p : Coord ℝ) {x : ℝ}, x ∉ marks row →
    HasDerivAt (γ.read .left p row) (δ.read .left p row x) x
  | [], p, x, _ => h.rest p x
  | s :: rest, p, x, hx => by
    have hrest : x ∉ marks rest := fun ⟨u, hu, hmark⟩ => hx ⟨u, List.mem_cons_of_mem _ hu, hmark⟩
    have ih := h.hasDerivAt_read s.target hrest
    have hstart : x ≠ s.start := fun h => hx ⟨s, List.mem_cons_self, .inl h⟩
    have hfinish : x ≠ s.finish := fun h => hx ⟨s, List.mem_cons_self, .inr h⟩
    -- Around `x` the readings stay in one of the three parts.
    rw [read]
    rcases hstart.lt_or_gt with hlt | hgt
    · rw [if_pos (Side.before_left.2 hlt.le)]
      refine (h.rest p x).congr_of_eventuallyEq ?_
      filter_upwards [eventually_lt_nhds hlt] with y hy
      rw [read, if_pos (Side.before_left.2 hy.le)]
    rw [if_neg (Side.not_before_of_lt hgt)]
    rcases hfinish.lt_or_gt with hlt | hgt'
    · rw [if_pos (Side.before_left.2 hlt.le)]
      refine ((h.inside p s _).comp_sub_const x s.start).congr_of_eventuallyEq ?_
      filter_upwards [eventually_gt_nhds hgt, eventually_lt_nhds hlt] with y hlow hupp
      rw [read, if_neg (Side.not_before_of_lt hlow), if_pos (Side.before_left.2 hupp.le)]
    · rw [if_neg (Side.not_before_of_lt hgt'), h.step, zero_add]
      refine (ih.const_add (γ.step p s)).congr_of_eventuallyEq ?_
      filter_upwards [eventually_gt_nhds hgt, eventually_gt_nhds hgt'] with y hlow hupp
      rw [read, if_neg (Side.not_before_of_lt hlow), if_neg (Side.not_before_of_lt hupp)]

/-- A rate that is continuous but for jumps can be integrated. -/
theorem intervalIntegrable_read (h : γ.Rate δ) (u v : ℝ) : ∀ (p : Coord ℝ) (row : List (Segment ℝ)),
    IntervalIntegrable (δ.read .left p row) volume u v
  | p, [] => (h.rest_continuous p).intervalIntegrable u v
  | p, s :: rest => by
    have hsplit : ∀ {f g : ℝ → ℝ} (c : ℝ), IntervalIntegrable f volume u v → IntervalIntegrable g volume u v →
        IntervalIntegrable (fun x => if x ≤ c then f x else g x) volume u v := by
      intro f g c hf hg
      rw [intervalIntegrable_iff] at hf hg ⊢
      classical exact Integrable.piecewise (s := Set.Iic c) measurableSet_Iic hf.integrableOn hg.integrableOn
    have hmoving : Continuous fun x => δ.inside p s (x - s.start) :=
      (h.inside_continuous p s).comp (continuous_sub_right _)
    refine hsplit s.start ((h.rest_continuous p).intervalIntegrable u v)
      (hsplit s.finish (hmoving.intervalIntegrable u v) ?_)
    exact intervalIntegrable_const.add (intervalIntegrable_read h u v s.target rest)

/-- The integral of the rate is the difference of the readings. -/
theorem integral_read (h : γ.Rate δ) (hγ : γ.Smooth) (hj : Joined a row) (p : Coord ℝ) (u v : ℝ) :
    ∫ y in u..v, δ.read .left p row y = γ.read .left p row v - γ.read .left p row u :=
  integral_eq_of_hasDerivAt_off_countable _ _ (marks_countable row) (h.continuous_read hγ p hj).continuousOn
    (fun _ hx => h.hasDerivAt_read p hx.2) (h.intervalIntegrable_read u v p row)

end Rate

end Gauge

/-- A position that is advanced as the row says. -/
theorem exists_advances (advance : ℝ) (hf : row.head? = some first)
    (hj : Joined ⟨first.position, first.start⟩ row) : ∃ p, Advances advance p row := by
  let shown : Gauge ℝ := .point (·.x) (fun s t => s.position.x + s.distanceAt t +
    if s.direction.y ≠ 0 then advance * s.velocityAt t else 0) fun s d t p => by
      simp [Segment.hold, Segment.distanceAt, Coord.origin]
  have hcases := fun x => shown.read_cases (x := x) (fun _ _ => rfl) hf hj
  refine ⟨shown.read .left first.position row, ?_, fun s hs x hlow hupp => ?_, fun last hlast x hx => ?_⟩
  · rintro first' hf' x hx
    cases hf.symm.trans hf'
    exact (hcases x).1 hx
  · obtain ⟨p, hp⟩ := (hcases x).2.1 s hs hlow hupp
    exact hp
  · exact (hcases x).2.2 last hlast hx

end

/-! ## The window as an integral -/

namespace PressureAdvance

variable (pa : PressureAdvance ℝ)

/-- The advanced position relative to `home`, with the weight `x - pivot`. -/
noncomputable def integrand (home pivot : ℝ) : Gauge ℝ where
  rest p x := (p.x - home) * (x - pivot)
  inside _ s t := (s.position.x - home + s.distanceAt t + pa.gain s * s.velocityAt t) * (s.start + t - pivot)
  step _ _ := 0
  inside_hold s d t p := by simp [Segment.hold, Segment.distanceAt, Segment.velocityAt]
  step_hold _ _ _ := rfl
  inside_sub_step _ _ _ _ := rfl

theorem primitive_hasDerivAt (s : Segment ℝ) (base pivot u : ℝ) : HasDerivAt (pa.primitive s base pivot)
    ((base + s.distanceAt u + pa.gain s * s.velocityAt u) * (u - pivot)) u := by
  have hid := hasDerivAt_id' u
  have hmoment := (hid.mul hid).mul (((hid.mul ((hid.mul_const (s.halfAccel / 4)).const_add
    ((s.velocity + 2 * pa.gain s * s.halfAccel) / 3))).const_add ((base + pa.gain s * s.velocity) / 2)))
  have harea := (hid.mul ((hid.mul ((hid.mul_const (s.halfAccel / 3)).const_add
    ((s.velocity + 2 * pa.gain s * s.halfAccel) / 2))).const_add (base + pa.gain s * s.velocity))).const_mul pivot
  have two : (2.0 : ℝ) = 2 := by norm_num
  refine (hmoment.sub harea).congr_deriv ?_
  simp only [Segment.distanceAt, Segment.velocityAt, two, Pi.mul_apply]
  ring

theorem gauge_rate (home pivot : ℝ) : (pa.gauge home pivot).Rate (pa.integrand home pivot) where
  rest p x := by
    have hsquare := ((hasDerivAt_id' x).sub_const pivot).pow 2
    refine ((hsquare.const_mul (p.x - home)).div_const 2).congr_deriv ?_
    simp only [integrand]
    ring
  inside p s t := by
    refine ((pa.primitive_hasDerivAt s (s.position.x - home) (pivot - s.start) t).const_add _).congr_deriv ?_
    simp only [integrand]
    ring
  step _ _ := rfl
  rest_continuous p := by
    simp only [integrand]
    fun_prop
  inside_continuous p s := by
    simp only [integrand, Segment.distanceAt, Segment.velocityAt]
    fun_prop

variable {c : Cursor ℝ} {a : Stand ℝ} {p : ℝ → ℝ}

/-- Between the marks the integrand is the advanced position with its weight. -/
theorem read_integrand {row : List (Segment ℝ)} {first : Segment ℝ} (hf : row.head? = some first)
    (hj : Joined ⟨first.position, first.start⟩ row) (hp : Advances pa.advance p row) (home pivot : ℝ) {x : ℝ}
    (hx : x ∉ marks row) :
    (pa.integrand home pivot).read .left first.position row x = (p x - home) * (x - pivot) := by
  obtain ⟨hahead, halong, hbehind⟩ :=
    (pa.integrand home pivot).read_cases (x := x) (fun _ _ => rfl) hf hj
  rcases hj.locate_of_notMem hf hx with hlt | ⟨s, hs, hlow, hupp⟩ | ⟨last, hlast, hgt⟩
  · rw [hahead hlt, hp.ahead first hf x hlt]
    rfl
  · obtain ⟨q, hq⟩ := halong s hs hlow hupp
    rw [hq, hp.along s hs x hlow hupp]
    simp only [integrand, gain, bne_iff_ne, ne_eq, Scalar.zero_literal]
    split <;> ring
  · rw [hbehind last hlast hgt, hp.behind last hlast x hgt]
    rfl

/-- The integral of the advanced position with the weight `y - pivot`. -/
theorem weighted_integral (h : c.Steady a) (hp : Advances pa.advance p c.segments.toList) (home pivot u v : ℝ) :
    IntervalIntegrable (fun y => p y * (y - pivot)) volume u v ∧
      ∫ y in u..v, p y * (y - pivot) = pa.total c a home pivot v - pa.total c a home pivot u +
        home * (((v - pivot) ^ 2 - (u - pivot) ^ 2) / 2) := by
  obtain ⟨first, hf, hplace⟩ := h.place
  have hj : Joined ⟨first.position, first.start⟩ c.segments.toList := by
    obtain ⟨rest, hrow⟩ := List.head?_eq_some_iff.1 hf
    have hjoined := h.joined
    rw [hrow] at hjoined ⊢
    exact ⟨rfl, hjoined.2⟩
  have hrate := pa.gauge_rate home pivot
  have hread := hrate.intervalIntegrable_read u v first.position c.segments.toList
  have hlinear : IntervalIntegrable (fun y => home * (y - pivot)) volume u v :=
    Continuous.intervalIntegrable (by fun_prop) u v
  have heq : ∀ᵐ y ∂volume, (pa.integrand home pivot).read .left first.position c.segments.toList y +
      home * (y - pivot) = p y * (y - pivot) := by
    filter_upwards [(marks_countable c.segments.toList).ae_notMem volume] with y hy
    rw [pa.read_integrand hf hj hp home pivot hy]
    ring
  constructor
  · exact (hread.add hlinear).congr_ae (ae_restrict_of_ae heq)
  · have hweight : ∫ y in u..v, (y - pivot) = ((v - pivot) ^ 2 - (u - pivot) ^ 2) / 2 := by
      rw [intervalIntegral.integral_comp_sub_right fun y => y, integral_id]
    rw [← intervalIntegral.integral_congr_ae (heq.mono fun y hy _ => hy),
      intervalIntegral.integral_add hread hlinear, hrate.integral_read (pa.gauge_smooth home pivot) hj,
      intervalIntegral.integral_const_mul, hweight, hplace]
    rfl

/-- The mean over the window, weighted by a triangle. -/
theorem position_eq {t x : ℝ} (h : c.Within a t x) (h0 : 0 ≤ c.index) (hs : 0 < pa.halfSmooth)
    (hinv : pa.invSquare = 1 / pa.halfSmooth ^ 2) (hp : Advances pa.advance p c.segments.toList) :
    pa.position c t = 1 / pa.halfSmooth ^ 2 *
      ∫ y in (x - pa.halfSmooth)..(x + pa.halfSmooth), p y * (pa.halfSmooth - |x - y|) := by
  have hst := h.steady
  obtain ⟨hpast, hpastEq⟩ := pa.weighted_integral hst hp c.queued.position.x (x - pa.halfSmooth)
    (x - pa.halfSmooth) x
  obtain ⟨hfuture, hfutureEq⟩ := pa.weighted_integral hst hp c.queued.position.x (x + pa.halfSmooth)
    x (x + pa.halfSmooth)
  -- The weight rises up to the moment and falls from there.
  have hrising : ∀ y ∈ Set.uIcc (x - pa.halfSmooth) x,
      p y * (y - (x - pa.halfSmooth)) = p y * (pa.halfSmooth - |x - y|) := by
    intro y hy
    rw [Set.uIcc_of_le (sub_le_self x hs.le)] at hy
    rw [abs_of_nonneg (sub_nonneg.2 hy.2)]
    ring
  have hfalling : ∀ y ∈ Set.uIcc x (x + pa.halfSmooth),
      -(p y * (y - (x + pa.halfSmooth))) = p y * (pa.halfSmooth - |x - y|) := by
    intro y hy
    rw [Set.uIcc_of_le (le_add_of_nonneg_right hs.le)] at hy
    rw [abs_of_nonpos (sub_nonpos.2 hy.1)]
    ring
  have harea : ∫ y in (x - pa.halfSmooth)..(x + pa.halfSmooth), p y * (pa.halfSmooth - |x - y|) =
      pa.window c t + c.queued.position.x * pa.halfSmooth ^ 2 := by
    rw [← intervalIntegral.integral_add_adjacent_intervals
        (hpast.congr fun y hy => hrising y (Set.uIoc_subset_uIcc hy))
        (hfuture.neg.congr fun y hy => hfalling y (Set.uIoc_subset_uIcc hy)),
      ← intervalIntegral.integral_congr hrising, ← intervalIntegral.integral_congr hfalling,
      intervalIntegral.integral_neg, hpastEq, hfutureEq, pa.window_eq h h0 hs.le]
    ring
  have hne : pa.halfSmooth ≠ 0 := hs.ne'
  rw [harea, position, if_neg (by simpa [Scalar.zero_literal] using hne), hst.current_eq, hinv]
  field_simp
  ring

end PressureAdvance

/-! ## Extruder queues -/

namespace Queue

/-- With an advance and half a smoothing time `h`, an extruder stands on a queued segment at the mean of the
advanced position over the `h` seconds around the moment, weighted by a triangle. The window may cover any
part of the queue, and the stands in front of it and behind it. -/
theorem smoothed_advance {q : Queue ℝ} (hq : Contiguous q.active) {i : Nat} {s : Segment ℝ}
    (hs : q.active[i]? = some s) {t advance h : ℝ} (ht : 0 ≤ t) (ht' : t ≤ s.duration) (hadvance : 0 ≤ advance)
    (hh : 0 < h) :
    (∃ p, Advances advance p q.active.toList) ∧
      ∃ pa c, PressureAdvance.of? advance (2 * h) = .ok pa ∧ q.cursor? i = some c ∧
        ∀ p, Advances advance p q.active.toList → pa.position c t =
          1 / h ^ 2 * ∫ y in (s.start + t - h)..(s.start + t + h), p y * (h - |s.start + t - y|) := by
  have hmem : s ∈ q.active.toList := Array.mem_toList_iff.2 (Array.mem_of_getElem? hs)
  obtain ⟨first, hf⟩ : ∃ first, q.active.toList.head? = some first :=
    ⟨_, List.head?_eq_some_head (List.ne_nil_of_mem hmem)⟩
  obtain ⟨c, hc, hcurrent⟩ := exists_cursor hs
  obtain ⟨-, -, hindex⟩ := cursor?_steady (hq.joined hf) hf hc
  obtain ⟨hsegs, hwithin⟩ := hq.within hf hc ht (by rwa [hcurrent])
  have half : (0.5 : ℝ) * (2 * h) = h := by
    rw [← mul_assoc]
    norm_num
  have hof : PressureAdvance.of? advance (2 * h) = .ok ⟨advance, h, 1 / h ^ 2⟩ := by
    simp only [PressureAdvance.of?, Scalar.zero_literal, Scalar.one_literal, half, if_pos hh, pow_two]
    rw [if_pos ⟨hadvance, by linarith⟩]
  refine ⟨exists_advances advance hf (hq.joined hf), _, c, hof, hc, fun p hp => ?_⟩
  rw [hcurrent] at hwithin
  exact PressureAdvance.position_eq _ hwithin (by omega) hh rfl (by rwa [hsegs])

/-- Filament at two millimetres a second, which is slowed down to a stand. -/
noncomputable def extruding : Queue ℝ where
  active := #[⟨0, 1, 2.0, 0, ⟨0, 0, 0⟩, ⟨1, 1, 0⟩, .cruise⟩, ⟨1, 1, 2.0, -1, ⟨2.0, 0, 0⟩, ⟨1, 1, 0⟩, .decelerate⟩]
  history := []
  retiredBefore := none

/-- The window of three seconds around the middle of the slowdown covers both segments and a second of the
stand behind them. -/
theorem smoothed_advance_extruding : ∃ pa c p, PressureAdvance.of? (1 / 10) (2 * (3 / 2)) = .ok pa ∧
    extruding.cursor? 1 = some c ∧ Advances (1 / 10) p extruding.active.toList ∧
      pa.position c (1 / 2) = 1 / (3 / 2) ^ 2 * ∫ y in (0 : ℝ)..3, p y * (3 / 2 - |3 / 2 - y|) := by
  have hj : Joined ⟨⟨0, 0, 0⟩, 0⟩ extruding.active.toList := by
    norm_num [extruding, Joined, Segment.finish]
  have hs : extruding.active[1]? = some ⟨1, 1, 2.0, -1, ⟨2.0, 0, 0⟩, ⟨1, 1, 0⟩, .decelerate⟩ := rfl
  obtain ⟨⟨p, hp⟩, pa, c, hpa, hc, hposition⟩ := smoothed_advance hj.contiguous hs (t := 1 / 2) (h := 3 / 2)
    (by norm_num) (by norm_num) (by norm_num : (0 : ℝ) ≤ 1 / 10) (by norm_num)
  refine ⟨pa, c, p, hpa, hc, hp, ?_⟩
  have hmean := hposition p hp
  norm_num at hmean ⊢
  exact hmean

end Queue

end PrinterMotion
