/-
How far motion has travelled along an axis. The distance does not jump, so at the time where two segments
meet it can be read off either of them, and it does not change while no segment moves along the axis. In an
unbroken row the coordinate is the one that the row begins at and the distance from there, wherever the
search for a time ends.
-/
import PrinterMotion.Proofs.Motion.Linked
import PrinterMotion.Proofs.Motion.Walk

namespace PrinterMotion

variable {F : Type} [Exact F]

/-! ## Gauges without jumps -/

namespace Gauge

variable {γ : Gauge F} {a : Stand F}

/-- Where segments meet, those that end there have been passed. -/
theorem Smooth.read_after (h : γ.Smooth) {done rest : List (Segment F)} (hj : Joined a (done ++ rest)) :
    γ.read .left a.place (done ++ rest) (a.after done).time =
      γ.passed a.place done + γ.rest (endPlace a.place done) (a.after done).time := by
  obtain ⟨hdone, hrest⟩ := hj.of_append
  have hpassed : ∀ s ∈ done, 0 ≤ s.duration ∧ ¬ Side.right.Before (a.after done).time s.finish :=
    fun s hs => ⟨hdone.duration_nonneg s hs, not_lt.2 (hdone.finish_le_after s hs)⟩
  rw [← h.read_right _ a.place hj, read_append_of_behind hpassed, h.read_right _ _ hrest]
  congr 1
  exact read_of_before fun s hs => hrest.le_start s hs

theorem Smooth.read_cons_of_le (h : γ.Smooth) {s : Segment F} {rest : List (Segment F)} (hj : Joined a (s :: rest))
    (p : Coord F) {x : F} (hx : s.finish ≤ x) :
    γ.read .left p (s :: rest) x = γ.step p s + γ.read .left s.target rest x := by
  have hfinish : ¬ Side.right.Before x s.finish := not_lt.2 hx
  rw [← h.read_right x p hj, ← h.read_right x s.target hj.2.2, read,
    if_neg (Side.not_before_mono hfinish (Segment.start_le_finish hj.2.1)), if_neg hfinish]

/-- The distance travelled along an axis. -/
def travel (i : Axis) : Gauge F where
  rest _ _ := 0
  inside _ s t := s.direction.get i * s.distanceAt t
  step _ s := s.direction.get i * s.distanceAt s.duration
  inside_hold s d t p := by cases i <;> simp [Segment.hold, Coord.origin, Coord.get]
  step_hold s d p := by cases i <;> simp [Segment.hold, Coord.origin, Coord.get]
  inside_sub_step _ _ _ _ := rfl

theorem travel_smooth (i : Axis) : (travel i : Gauge F).Smooth where
  inside_zero p s := by simp [travel, Segment.distanceAt]
  inside_duration p s := by simp [travel]

/-- Between two moments nothing is travelled along an axis that no segment moves along. -/
theorem travel_eq {i : Axis} {lo hi x y : F} (hx : lo ≤ x ∧ x ≤ hi) (hy : lo ≤ y ∧ y ≤ hi) :
    ∀ {a : Stand F} {row : List (Segment F)} (p : Coord F), Joined a row →
      (∀ s ∈ row, s.start < hi → lo < s.finish → s.direction.get i = 0) →
        (travel i).read .left p row x = (travel i).read .left p row y
  | _, [], _, _, _ => rfl
  | a, s :: rest, p, hj, hq => by
    have ih := travel_eq hx hy s.target hj.2.2 fun u hu => hq u (List.mem_cons_of_mem _ hu)
    by_cases hahead : hi ≤ s.start
    · -- Up to both moments nothing has begun.
      have hbefore : ∀ z ≤ hi, (travel i).read .left p (s :: rest) z = 0 :=
        fun z hz => if_pos (hz.trans hahead : Side.left.Before z s.start)
      rw [hbefore x hx.2, hbefore y hy.2]
    by_cases hbehind : s.finish ≤ lo
    · rw [(travel_smooth i).read_cons_of_le hj p (hbehind.trans hx.1),
        (travel_smooth i).read_cons_of_le hj p (hbehind.trans hy.1), ih]
    · -- The segment is around in between, so it does not move along the axis.
      have hzero := hq s List.mem_cons_self (not_le.1 hahead) (not_le.1 hbehind)
      have hskip : ∀ z, (travel i).read .left p (s :: rest) z = (travel i).read .left s.target rest z := by
        intro z
        have hstill : z ≤ s.finish → (travel i).read .left s.target rest z = 0 :=
          fun hz => read_of_before fun u hu => hz.trans (hj.2.2.le_start u hu)
        rw [read]
        simp only [Side.before_left]
        split
        · rename_i hz
          exact (hstill (hz.trans (Segment.start_le_finish hj.2.1))).symm
        · split
          · rename_i hz
            rw [hstill hz]
            simp [travel, hzero]
          · simp [travel, hzero]
      rw [hskip, hskip, ih]

end Gauge

/-! ## Unbroken rows -/

theorem Segment.get_target (s : Segment F) (i : Axis) :
    s.target.get i = s.position.get i + s.direction.get i * s.distanceAt s.duration :=
  s.get_coordAt i s.duration

/-- In an unbroken row the distance of what has been passed is that to its end. -/
theorem passed_travel (i : Axis) : ∀ {row : List (Segment F)} (p : Coord F), Unbroken row →
    (∀ s ∈ row.head?, s.position = p) → (Gauge.travel i).passed p row = (endPlace p row).get i - p.get i
  | [], p, _, _ => (sub_self _).symm
  | s :: rest, p, h, hp => by
    obtain ⟨hnext, hrest⟩ := List.isChain_cons.1 h
    have ih := passed_travel i s.target hrest hnext
    have hend : endPlace p (s :: rest) = endPlace s.target rest := rfl
    rw [Gauge.passed, ih, hend, Segment.get_target, hp s rfl]
    simp only [Gauge.travel]
    ring

theorem Contiguous.joined {segs : Array (Segment F)} (h : Contiguous segs) {first : Segment F}
    (hf : segs.toList.head? = some first) : Joined ⟨first.position, first.start⟩ segs.toList := by
  have hrow : ∀ {row : List (Segment F)} {a : Stand F}, (∀ s ∈ row, 0 ≤ s.duration) →
      row.IsChain (fun s u => u.start = s.finish) → (∀ s ∈ row.head?, s.start = a.time) → Joined a row := by
    intro row
    induction row with
    | nil => exact fun _ _ _ => trivial
    | cons s rest ih =>
      intro a hd hc ha
      obtain ⟨hnext, hrest⟩ := List.isChain_cons.1 hc
      exact ⟨ha s rfl, hd s List.mem_cons_self, ih (fun u hu => hd u (List.mem_cons_of_mem _ hu)) hrest hnext⟩
  refine hrow (fun s hs => ?_) (List.isChain_iff_getElem.2 fun i hi => ?_) fun s hs => ?_
  · obtain ⟨i, hi⟩ := List.getElem?_of_mem hs
    exact h.duration_nonneg i s (by simpa using hi)
  · refine h.meets i _ _ ?_ ?_ <;> simp
  · rw [hf] at hs
    cases hs
    rfl

/-! ## Places that contain a time -/

namespace Cursor

variable {c : Cursor F} {a : Stand F} {t x : F}

theorem Within.read_eq (h : c.Within a t x) {γ : Gauge F} (hγ : γ.Smooth) :
    γ.read .left a.place c.segments.toList x =
      γ.passed a.place c.done + γ.inside (endPlace a.place c.done) c.queued t := by
  have hst := h.steady
  rw [← h.time]
  by_cases hlow : c.index < 0 ∨ 0 < t
  · refine hst.read_eq γ (hlow.imp_right fun hpos => ?_) (h.upp.imp_right fun hle => ?_)
    · exact not_le.2 (lt_add_of_pos_right _ hpos)
    · exact add_le_add_right hle _
  · rw [not_or, not_lt, not_lt] at hlow
    obtain rfl : t = 0 := le_antisymm hlow.2 (h.low.resolve_left (not_lt.2 hlow.1))
    rw [add_zero]
    by_cases hi : c.index < c.segments.size
    · -- Where the place begins everything in front of it has been passed.
      have hrow := Steady.row_eq hlow.1 hi
      have hjoined := hst.joined
      rw [hrow] at hjoined
      have hafter := hγ.read_after hjoined
      rw [← hrow, ← hst.queued_start hlow.1 hi] at hafter
      rw [hafter, hγ.inside_zero]
    · have hlow : ¬ Side.right.Before (c.queued.start + 0) c.queued.start := not_lt.2 (add_zero _).ge
      have hread := hst.read_eq γ (.inr hlow) (.inl (not_lt.1 hi))
      rwa [add_zero, hγ.read_right _ a.place hst.joined] at hread

/-- The place begins where the segments in front of it lead. -/
theorem Steady.queued_position (h : c.Steady a) (hu : Unbroken c.segments.toList) :
    c.queued.position = endPlace a.place c.done := by
  obtain ⟨first, hfirst, hplace⟩ := h.place
  by_cases h0 : c.index < 0
  · have hdone : c.done = [] := by rw [done, Int.toNat_of_nonpos h0.le]; rfl
    rw [h.queued_of_neg h0, hdone]
    rfl
  by_cases hi : c.index < c.segments.size
  · have hrow := row_eq (not_lt.1 h0) hi
    rcases List.eq_nil_or_concat c.done with hnil | ⟨init, s, hdone⟩
    · rw [hrow, hnil] at hfirst
      cases hfirst
      rw [hplace, hnil]
      rfl
    · rw [hrow, hdone, List.concat_eq_append] at hu
      rw [hdone, List.concat_eq_append, endPlace, List.foldl_append]
      exact (List.isChain_append.1 hu).2.2 s (by simp) _ rfl
  · have hall : c.done = c.segments.toList := by
      rw [done, List.take_of_length_le (by rw [Array.length_toList]; omega)]
    rw [queued_of_ge (a := a) (not_lt.1 hi), hall, ← Stand.after_place]
    rfl

/-- The coordinate is that of the start and the distance travelled from there. -/
theorem Within.axisAt_eq (h : c.Within a t x) (hu : Unbroken c.segments.toList) (i : Axis) :
    c.current.axisAt i t = a.place.get i + (Gauge.travel i).read .left a.place c.segments.toList x := by
  obtain ⟨first, hfirst, hplace⟩ := h.steady.place
  have hpassed := passed_travel i a.place (List.IsChain.take hu c.index.toNat) fun s hs => by
    rw [List.head?_take] at hs
    split at hs
    · cases hs
    · rw [hfirst] at hs
      cases hs
      exact hplace
  rw [← done] at hpassed
  rw [h.read_eq (Gauge.travel_smooth i), hpassed, h.steady.current_eq, Segment.axisAt, h.steady.queued_position hu]
  simp only [Gauge.travel]
  ring

theorem Steady.rewind_within (h : c.Steady a) (t : F) : (c.rewind t).1.Steady a ∧
    (c.rewind t).1.segments = c.segments ∧
    (c.rewind t).1.queued.start + (c.rewind t).2 = c.queued.start + t ∧
    ((c.rewind t).1.index < 0 ∨ 0 ≤ (c.rewind t).2) := by
  fun_induction rewind c t with
  | case1 c t hi => exact ⟨h, rfl, rfl, .inl hi⟩
  | case2 c t hi hneg p ih =>
    have hp : p.Steady a := h.prev
    have hnext := hp.next_start
    rw [next_prev, Segment.finish] at hnext
    obtain ⟨hst, hsegs, htime, hlow⟩ := ih hp
    refine ⟨hst, hsegs, ?_, hlow⟩
    rw [htime, hp.current_eq, hnext]
    ring
  | case3 c t hi hneg =>
    rw [Scalar.zero_literal, not_lt] at hneg
    exact ⟨h, rfl, rfl, .inr hneg⟩

theorem Steady.forward_within (h : c.Steady a) (ht : c.index < 0 ∨ 0 ≤ t) :
    (c.forward t).1.Within a (c.forward t).2 (c.queued.start + t) ∧ (c.forward t).1.segments = c.segments := by
  fun_induction forward c t with
  | case1 c t hi => exact ⟨⟨h, rfl, ht, .inl hi⟩, rfl⟩
  | case2 c t hi duration hlt ih =>
    have hdur : duration = c.queued.duration := by rw [← h.current_eq]
    have hstart : c.next.queued.start + (t - duration) = c.queued.start + t := by
      rw [h.next_start, Segment.finish, hdur]
      ring
    rw [← hstart]
    exact ih h.next (.inr (sub_pos.2 hlt).le)
  | case3 c t hi duration hle =>
    have hdur : duration = c.queued.duration := by rw [← h.current_eq]
    rw [hdur, not_lt] at hle
    exact ⟨⟨h, rfl, ht, .inr hle⟩, rfl⟩

theorem Steady.seek_within (h : c.Steady a) (t : F) :
    (c.seek t).1.Within a (c.seek t).2 (c.queued.start + t) ∧ (c.seek t).1.segments = c.segments := by
  obtain ⟨hst, hsegs, htime, hlow⟩ := h.rewind_within t
  obtain ⟨hwithin, hsegs'⟩ := hst.forward_within hlow
  rw [htime] at hwithin
  exact ⟨hwithin, hsegs'.trans hsegs⟩

theorem Steady.seek_axisAt_eq (h : c.Steady a) (hu : Unbroken c.segments.toList) (i : Axis) (t : F) :
    c.axisAt i t =
      a.place.get i + (Gauge.travel i).read .left a.place c.segments.toList (c.queued.start + t) := by
  obtain ⟨hwithin, hsegs⟩ := h.seek_within t
  have hcoord : c.axisAt i t = (c.seek t).1.current.axisAt i (c.seek t).2 := Segment.get_coordAt _ i _
  rw [hcoord, hwithin.axisAt_eq (by rwa [hsegs]), hsegs]

end Cursor

/-- The cursors on segments of a queue. -/
theorem Contiguous.within {q : Queue F} (h : Contiguous q.active) {first : Segment F}
    (hf : q.active.toList.head? = some first) {i : Nat} {c : Cursor F} (hc : q.cursor? i = some c) {t : F}
    (ht : 0 ≤ t) (ht' : t ≤ c.current.duration) :
    c.segments = q.active ∧ c.Within ⟨first.position, first.start⟩ t (c.current.start + t) := by
  simp only [Queue.cursor?, Cursor.at?] at hc
  split at hc
  · rename_i hi
    cases hc
    have hst : Cursor.Steady ⟨q.active, by omega, i, none⟩ ⟨first.position, first.start⟩ :=
      ⟨rfl, ⟨first, hf, rfl⟩, h.joined hf⟩
    rw [hst.current_eq] at ht' ⊢
    exact ⟨rfl, hst, rfl, .inr ht, .inr ht'⟩
  · cases hc

end PrinterMotion
