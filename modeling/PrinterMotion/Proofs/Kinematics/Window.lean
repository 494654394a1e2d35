/-
The window of pressure advance as an integral over the row. The integral over one segment is a difference
of a primitive, taken between the limits of the window where these lie in the segment. The primitives of
all segments are parts of one gauge that does not jump, so the sum over the segments that a window meets
is a difference of two readings, however the row is cut into segments.
-/
import PrinterMotion.Proofs.Motion.Walk
import PrinterMotion.Kinematics.PressureAdvance

namespace PrinterMotion

variable {F : Type} [Exact F]

namespace Cursor.Steady

variable {c : Cursor F} {a : Stand F} {γ : Gauge F}

/-- Readings at the ends of a place are those inside it as well, if the gauge does not jump. -/
theorem read_closed (h : c.Steady a) (hγ : γ.Smooth) {u : F} (h0 : 0 ≤ u)
    (hu : (c.segments.size : Int) ≤ c.index ∨ u ≤ c.queued.duration ∧ 0 < c.queued.duration) :
    γ.read .left a.place c.segments.toList (c.queued.start + u) =
      γ.passed a.place c.done + γ.inside (endPlace a.place c.done) c.queued u := by
  rcases h0.lt_or_eq with hpos | rfl
  · refine h.read_eq γ (.inr ?_) (hu.imp_right fun hu => ?_)
    · exact not_le.2 (lt_add_of_pos_right _ hpos)
    · exact add_le_add_right hu.1 _
  · rw [← hγ.read_right _ a.place h.joined]
    refine h.read_eq γ (.inr ?_) (hu.imp_right fun hu => ?_)
    · rw [add_zero]
      exact lt_irrefl _
    · exact add_lt_add_right hu.2 _

/-- The difference of two readings inside one place. -/
theorem span (h : c.Steady a) (hγ : γ.Smooth) {u v : F} (hu0 : 0 ≤ u) (hu : u ≤ c.queued.duration)
    (hv0 : 0 ≤ v) (hv : v ≤ c.queued.duration) :
    γ.inside (endPlace a.place c.done) c.queued v - γ.inside (endPlace a.place c.done) c.queued u =
      γ.read .left a.place c.segments.toList (c.queued.start + v) -
        γ.read .left a.place c.segments.toList (c.queued.start + u) := by
  rcases h.duration_nonneg.lt_or_eq with hd | hd
  · rw [h.read_closed hγ hu0 (.inr ⟨hu, hd⟩), h.read_closed hγ hv0 (.inr ⟨hv, hd⟩)]
    ring
  · obtain rfl : u = 0 := le_antisymm (hd ▸ hu) hu0
    obtain rfl : v = 0 := le_antisymm (hd ▸ hv) hv0
    rw [sub_self, sub_self]

end Cursor.Steady

namespace PressureAdvance

variable (pa : PressureAdvance F)

/-! ## One segment -/

/-- The advance that holds for a segment. -/
def gain (s : Segment F) : F := if s.direction.y != (0.0 : F) then pa.advance else 0.0

/-- The integral of the advanced position over the first `u` seconds of a segment, with the weight
`t - pivot`. -/
def primitive (s : Segment F) (base pivot u : F) : F :=
  let base := base + pa.gain s * s.velocity
  let velocity := s.velocity + 2 * pa.gain s * s.halfAccel
  u * u * (base / 2 + u * (velocity / 3 + u * (s.halfAccel / 4))) -
    pivot * (u * (base + u * (velocity / 2 + u * (s.halfAccel / 3))))

theorem weighted_eq (s : Segment F) (base lo hi pivot : F) : pa.weighted s base lo hi pivot =
    pa.primitive s base pivot (min hi s.duration) - pa.primitive s base pivot (max lo 0) := by
  have half : (0.5 : F) = 1 / 2 := by norm_num
  have quarter : (0.25 : F) = 1 / 4 := by norm_num
  have two : (2.0 : F) = 2 := by norm_num
  have three : (3.0 : F) = 3 := by norm_num
  simp only [weighted, primitive, integral, momentIntegral, Scalar.max_eq, Scalar.min_eq, Scalar.zero_literal,
    half, quarter, two, three, gain]
  ring

@[simp] theorem primitive_zero (s : Segment F) (base pivot : F) : pa.primitive s base pivot 0 = 0 := by
  simp [primitive]

/-- While something stands the primitive is that of a constant. -/
theorem primitive_hold (s d base pivot u : F) (p : Coord F) :
    pa.primitive (.hold s d p) base pivot u = base * (u ^ 2 / 2 - pivot * u) := by
  simp only [primitive, Segment.hold, Scalar.zero_literal]
  ring

/-! ## The window as a gauge -/

/-- The integral of the advanced position relative to `home`, with the weight `x - pivot`. -/
def gauge (home pivot : F) : Gauge F where
  rest p x := (p.x - home) * (x - pivot) ^ 2 / 2
  inside p s t := (p.x - home) * (s.start - pivot) ^ 2 / 2 +
    pa.primitive s (s.position.x - home) (pivot - s.start) t
  step p s := (p.x - home) * (s.start - pivot) ^ 2 / 2 +
    pa.primitive s (s.position.x - home) (pivot - s.start) s.duration -
      (s.target.x - home) * (s.finish - pivot) ^ 2 / 2
  inside_hold s d t p := by
    rw [primitive_hold]
    simp only [Segment.hold]
    ring
  step_hold s d p := by
    rw [primitive_hold, Segment.target_hold, Segment.finish_hold]
    simp only [Segment.hold]
    ring
  inside_sub_step p p' s t := by ring

theorem gauge_smooth (home pivot : F) : (pa.gauge home pivot).Smooth where
  inside_zero p s := by simp [gauge]
  inside_duration p s := by simp [gauge]

variable {c : Cursor F} {a : Stand F}

/-- The reading of the integral with the weight `x - pivot` off the row of a cursor. -/
def total (c : Cursor F) (a : Stand F) (home pivot x : F) : F :=
  (pa.gauge home pivot).read .left a.place c.segments.toList x

/-- The weighted integral over a part of one place. -/
theorem weighted_queued (h : c.Steady a) (home pivot : F) {lo hi : F} (hlo : lo ≤ c.queued.duration) (hhi : 0 ≤ hi) :
    pa.weighted c.queued (c.queued.position.x - home) lo hi (pivot - c.queued.start) =
      pa.total c a home pivot (c.queued.start + min hi c.queued.duration) -
        pa.total c a home pivot (c.queued.start + max lo 0) := by
  have hd := h.duration_nonneg
  rw [weighted_eq, total, total, ← h.span (pa.gauge_smooth home pivot) (le_max_right _ _) (max_le hlo hd)
    (le_min hhi hd) (min_le_right _ _)]
  simp only [gauge]
  ring

/-- The integral over the places in front of the cursor that the window meets. -/
theorem behind_foldl (home : F) : ∀ (fuel : Nat) {c : Cursor F} {start : F} (acc : F) (w : Nat), c.Steady a →
    -start ≤ w → c.index.toNat + w ≤ fuel →
      (behind c start fuel).foldl (fun sum (p, start) =>
        sum + pa.weighted p (p.position.x - home) start p.duration start) acc =
      acc + (pa.total c a home (c.queued.start + start) c.queued.start -
        pa.total c a home (c.queued.start + start) (c.queued.start + min start 0)) := by
  intro fuel
  -- By induction on the fuel; `w` is a bound on the seconds that are left.
  induction fuel with
  | zero =>
    intro c start acc w h hw hfuel
    obtain rfl : w = 0 := by omega
    have hstart : 0 ≤ start := by
      rw [Nat.cast_zero] at hw
      linarith
    rw [min_eq_right hstart, add_zero, sub_self, add_zero]
    rfl
  | succ fuel ih =>
    intro c start acc w h hw hfuel
    rw [behind, Scalar.zero_literal]
    by_cases hneg : start < 0
    · have hp := h.prev
      have hnext := hp.next_start
      rw [Cursor.next_prev, Segment.finish] at hnext
      have hpivot : start + c.prev.queued.duration = c.queued.start + start - c.prev.queued.start := by
        rw [hnext]
        ring
      have hd := hp.duration_nonneg
      rw [if_pos hneg, List.foldl_cons, hp.current_eq]
      obtain ⟨w', hw', hfuel'⟩ := h.budget_prev hneg hw hfuel
      have key := weighted_queued pa hp home (c.queued.start + start)
        (by linarith : start + c.prev.queued.duration ≤ c.prev.queued.duration) hd
      rw [← hpivot, min_self] at key
      have htime : c.prev.queued.start + (start + c.prev.queued.duration) = c.queued.start + start := by
        rw [hnext]
        ring
      show (behind c.prev (start + c.prev.queued.duration) fuel).foldl _ (acc + pa.weighted _ _ _ _ _) = _
      rw [key, ih _ w' hp hw' hfuel', htime, min_eq_left hneg.le, ← hnext]
      have hsame : ∀ x y, pa.total c.prev a home x y = pa.total c a home x y := fun _ _ => rfl
      simp only [hsame]
      rcases le_total 0 (start + c.prev.queued.duration) with hin | hout
      · rw [max_eq_left hin, min_eq_right hin, htime, add_zero]
        ring
      · rw [max_eq_right hout, min_eq_left hout, htime, add_zero]
        ring
    · have hstart : 0 ≤ start := not_lt.1 hneg
      rw [if_neg hneg, min_eq_right hstart, add_zero, sub_self, add_zero]
      rfl

/-- The integral over the places behind the cursor that the window meets. -/
theorem ahead_foldl (home : F) : ∀ (fuel : Nat) {c : Cursor F} {finish : F} (acc : F) (w : Nat), c.Steady a →
    finish - c.queued.duration ≤ w → (c.segments.size - (c.index + 1) : Int).toNat + w ≤ fuel →
      (ahead c finish c.queued.duration fuel).foldl (fun sum (n, finish) =>
        sum - pa.weighted n (n.position.x - home) 0 finish finish) acc =
      acc - (pa.total c a home (c.queued.start + finish) (c.queued.start + max finish c.queued.duration) -
        pa.total c a home (c.queued.start + finish) c.queued.finish) := by
  intro fuel
  induction fuel with
  | zero =>
    intro c finish acc w h hw hfuel
    obtain rfl : w = 0 := by omega
    have hfinish : finish ≤ c.queued.duration := by
      rw [Nat.cast_zero] at hw
      linarith
    rw [max_eq_right hfinish, Segment.finish, sub_self, sub_zero]
    rfl
  | succ fuel ih =>
    intro c finish acc w h hw hfuel
    rw [ahead]
    by_cases hgo : c.queued.duration < finish
    · have hn := h.next
      have hnext := h.next_start
      rw [Segment.finish] at hnext
      have hpivot : finish - c.queued.duration = c.queued.start + finish - c.next.queued.start := by
        rw [hnext]
        ring
      have hd := hn.duration_nonneg
      rw [if_pos hgo, List.foldl_cons, hn.current_eq]
      obtain ⟨w', hw', hfuel'⟩ := h.budget_next hgo hw hfuel
      have key := weighted_queued pa hn home (c.queued.start + finish) hd
        (by linarith : 0 ≤ finish - c.queued.duration)
      rw [← hpivot, max_self, add_zero] at key
      have htime : c.next.queued.start + (finish - c.queued.duration) = c.queued.start + finish := by
        rw [hnext]
        ring
      show (ahead c.next (finish - c.queued.duration) c.next.queued.duration fuel).foldl _
        (acc - pa.weighted _ _ 0 _ _) = _
      rw [key, ih _ w' hn hw' hfuel', htime, max_eq_left hgo.le, ← h.next_start]
      have hsame : ∀ x y, pa.total c.next a home x y = pa.total c a home x y := fun _ _ => rfl
      simp only [hsame]
      rcases le_total (finish - c.queued.duration) c.next.queued.duration with hin | hout
      · rw [min_eq_left hin, max_eq_right hin, htime, Segment.finish]
        ring
      · rw [min_eq_right hout, max_eq_left hout, htime, Segment.finish]
        ring
    · have hfinish : finish ≤ c.queued.duration := not_lt.1 hgo
      rw [if_neg hgo, max_eq_right hfinish, Segment.finish, sub_self, sub_zero]
      rfl

/-! ## The whole window -/

/-- Behind the row the integral relative to the last place does not grow. -/
theorem total_still (h : c.Steady a) (hi : (c.segments.size : Int) ≤ c.index) (pivot : F) {u v : F} (hu : 0 ≤ u)
    (hv : 0 ≤ v) : pa.total c a c.queued.position.x pivot (c.queued.start + u) =
      pa.total c a c.queued.position.x pivot (c.queued.start + v) := by
  have hq := Cursor.Steady.queued_of_ge (a := a) hi
  have hinside : ∀ p w, (pa.gauge c.queued.position.x pivot).inside p c.queued w =
      (p.x - c.queued.position.x) * (c.queued.start - pivot) ^ 2 / 2 := by
    intro p w
    simp only [gauge, sub_self, hq, primitive_hold, zero_mul, add_zero]
  rw [total, total, h.read_closed (pa.gauge_smooth _ pivot) hu (.inl hi),
    h.read_closed (pa.gauge_smooth _ pivot) hv (.inl hi), hinside, hinside]

/-- The weighted integral over the cursor's own place. -/
theorem weighted_own (h : c.Steady a) (pivot : F) {lo hi : F}
    (hlo : (c.segments.size : Int) ≤ c.index ∨ lo ≤ c.queued.duration) (hhi : 0 ≤ hi) :
    pa.weighted c.queued 0 lo hi (pivot - c.queued.start) =
      pa.total c a c.queued.position.x pivot (c.queued.start + min hi c.queued.duration) -
        pa.total c a c.queued.position.x pivot (c.queued.start + max lo 0) := by
  rcases hlo with hend | hlo
  · have hq := Cursor.Steady.queued_of_ge (a := a) hend
    rw [total_still pa h hend pivot (le_min hhi h.duration_nonneg) (le_max_right lo 0), sub_self, weighted_eq, hq,
      primitive_hold, primitive_hold, zero_mul, zero_mul, sub_self]
  · have key := weighted_queued pa h c.queued.position.x pivot hlo hhi
    rwa [sub_self] at key

/-- More places are looked through than a window can meet. -/
theorem le_reach (c : Cursor F) (length : F) : ∃ w : Nat, |length| ≤ w ∧
    c.segments.size + c.index.natAbs + w ≤ reach c length := by
  refine ⟨⌊|length|⌋.toNat + 1, ?_, ?_⟩
  · have hfloor : (0 : Int) ≤ ⌊|length|⌋ := Int.floor_nonneg.2 (abs_nonneg length)
    have hcast : ((⌊|length|⌋.toNat : Int) : F) = ⌊|length|⌋ := by rw [Int.toNat_of_nonneg hfloor]
    push_cast at hcast ⊢
    rw [hcast]
    exact (Int.lt_floor_add_one |length|).le
  · have hreach : reach c length = c.segments.size + c.index.natAbs + ⌊|length|⌋.toNat + 2 := by
      rw [reach, Scalar.abs_eq]
      rfl
    omega

/-- The cursor's own place up to the moment, with rising weight. -/
theorem weighted_past {t x : F} (h : c.Within a t x) (h0 : 0 ≤ c.index) (hs : 0 ≤ pa.halfSmooth) :
    pa.weighted c.queued 0 (t - pa.halfSmooth) t (t - pa.halfSmooth) =
      pa.total c a c.queued.position.x (x - pa.halfSmooth) x -
        pa.total c a c.queued.position.x (x - pa.halfSmooth) (c.queued.start + max (t - pa.halfSmooth) 0) := by
  have hst := h.steady
  have hlow := h.low.resolve_left (not_lt.2 h0)
  have key := weighted_own pa hst (x - pa.halfSmooth) (h.upp.imp_right fun hle => (sub_le_self t hs).trans hle) hlow
  rw [show x - pa.halfSmooth - c.queued.start = t - pa.halfSmooth by rw [← h.time]; ring] at key
  rw [key]
  rcases h.upp with hend | hle
  · rw [total_still pa hst hend _ (le_min hlow hst.duration_nonneg) hlow, h.time]
  · rw [min_eq_left hle, h.time]

/-- The cursor's own place from the moment on, with falling weight. -/
theorem weighted_future {t x : F} (h : c.Within a t x) (h0 : 0 ≤ c.index) (hs : 0 ≤ pa.halfSmooth) :
    pa.weighted c.queued 0 t (t + pa.halfSmooth) (t + pa.halfSmooth) =
      pa.total c a c.queued.position.x (x + pa.halfSmooth)
          (c.queued.start + min (t + pa.halfSmooth) c.queued.duration) -
        pa.total c a c.queued.position.x (x + pa.halfSmooth) x := by
  have hlow := h.low.resolve_left (not_lt.2 h0)
  have key := weighted_own pa h.steady (x + pa.halfSmooth) h.upp (by linarith : 0 ≤ t + pa.halfSmooth)
  rwa [show x + pa.halfSmooth - c.queued.start = t + pa.halfSmooth by rw [← h.time]; ring, max_eq_left hlow,
    h.time] at key

/-- The window is a difference of integrals over the row, relative to the position at the start of the
cursor's place. -/
theorem window_eq {t x : F} (h : c.Within a t x) (h0 : 0 ≤ c.index) (hs : 0 ≤ pa.halfSmooth) :
    pa.window c t =
      let total := pa.total c a c.queued.position.x
      (total (x - pa.halfSmooth) x - total (x - pa.halfSmooth) (x - pa.halfSmooth)) -
        (total (x + pa.halfSmooth) (x + pa.halfSmooth) - total (x + pa.halfSmooth) x) := by
  have hst := h.steady
  have hstart : c.queued.start + (t - pa.halfSmooth) = x - pa.halfSmooth := by rw [← h.time]; ring
  have hfinish : c.queued.start + (t + pa.halfSmooth) = x + pa.halfSmooth := by rw [← h.time]; ring
  obtain ⟨w, hw, hfuel⟩ := le_reach c (t - pa.halfSmooth)
  obtain ⟨w', hw', hfuel'⟩ := le_reach c (t + pa.halfSmooth)
  have hback := fun acc => behind_foldl pa c.queued.position.x (reach c (t - pa.halfSmooth)) acc w hst
    ((neg_le_abs _).trans hw) (by omega)
  have hahead := fun acc => ahead_foldl pa c.queued.position.x (reach c (t + pa.halfSmooth)) acc w' hst
    (((sub_le_self _ hst.duration_nonneg).trans (le_abs_self _)).trans hw') (by omega)
  rw [hstart] at hback
  rw [hfinish] at hahead
  -- Where the window ends in the own place, the places next to it add nothing, and else they add the rest.
  have hpast : ∀ f : F → F, f (c.queued.start + max (t - pa.halfSmooth) 0) +
      f (c.queued.start + min (t - pa.halfSmooth) 0) = f (x - pa.halfSmooth) + f c.queued.start := by
    intro f
    rw [← hstart]
    rcases le_total (t - pa.halfSmooth) 0 with hle | hle
    · rw [max_eq_right hle, min_eq_left hle, add_zero, add_comm]
    · rw [max_eq_left hle, min_eq_right hle, add_zero]
  have hnext : ∀ f : F → F, f (c.queued.start + min (t + pa.halfSmooth) c.queued.duration) +
      f (c.queued.start + max (t + pa.halfSmooth) c.queued.duration) =
        f (x + pa.halfSmooth) + f c.queued.finish := by
    intro f
    rw [← hfinish, Segment.finish]
    rcases le_total (t + pa.halfSmooth) c.queued.duration with hle | hle
    · rw [min_eq_left hle, max_eq_right hle]
    · rw [min_eq_right hle, max_eq_left hle, add_comm]
  simp only [window, hst.current_eq, Scalar.zero_literal]
  rw [hback, hahead, pa.weighted_past h h0 hs, pa.weighted_future h h0 hs]
  linarith [hpast (pa.total c a c.queued.position.x (x - pa.halfSmooth)),
    hnext (pa.total c a c.queued.position.x (x + pa.halfSmooth))]

end PressureAdvance

end PrinterMotion
