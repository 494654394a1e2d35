/-
The trajectory of a row: along each segment it is the segment's own line, in front of the row it stands
where the first segment begins, and behind it where the last one ends. A row without gaps or jumps has one
trajectory, and every cursor reads it, however far the time is from the place where the cursor stands.

A cursor stops looking as soon as it is outside the row. Here is also the walk that goes on through the
holds there, with a bound on its turns: it takes a turn for each second, so it ends too, at the same point.
-/
import PrinterMotion.Proofs.Motion.Path
import PrinterMotion.Proofs.Stepper.Order

namespace PrinterMotion

variable {F : Type} [Exact F]

/-- The path stands in front of the row, runs along its segments and stands behind it. -/
structure Traces (path : F → Coord F) (row : List (Segment F)) : Prop where
  ahead : ∀ first ∈ row.head?, ∀ x ≤ first.start, path x = first.position
  along : ∀ s ∈ row, ∀ x, s.start ≤ x → x ≤ s.finish → path x = s.coordAt (x - s.start)
  behind : ∀ last ∈ row.getLast?, ∀ x, last.finish ≤ x → path x = last.target

/-! ## One trajectory -/

/-- A time lies in front of segments that meet, in one of them, or behind them. -/
theorem Joined.locate (x : F) : ∀ {a : Stand F} {row : List (Segment F)}, Joined a row →
    x ≤ a.time ∨ (∃ s ∈ row, s.start ≤ x ∧ x ≤ s.finish) ∨ (a.after row).time ≤ x
  | a, [], _ => (le_total x a.time).imp_right .inr
  | a, s :: rest, ⟨hs, _, hrest⟩ => by
    rcases hrest.locate x with hx | ⟨u, hu, hx⟩ | hx
    · rcases le_total x s.start with hlow | hlow
      · exact .inl (hs ▸ hlow)
      · exact .inr (.inl ⟨s, List.mem_cons_self, hlow, hx⟩)
    · exact .inr (.inl ⟨u, List.mem_cons_of_mem _ hu, hx⟩)
    · exact .inr (.inr hx)

theorem Traces.unique {path other : F → Coord F} {row : List (Segment F)} {first : Segment F}
    (h : Traces path row) (h' : Traces other row) (hf : row.head? = some first)
    (hj : Joined ⟨first.position, first.start⟩ row) : path = other := by
  funext x
  rcases hj.locate x with hx | ⟨s, hs, hlow, hupp⟩ | hx
  · rw [h.ahead first hf x hx, h'.ahead first hf x hx]
  · rw [h.along s hs x hlow hupp, h'.along s hs x hlow hupp]
  · have hne : row ≠ [] := by rintro rfl; cases hf
    have hlast := List.getLast?_eq_some_getLast hne
    rw [Stand.after_of_getLast? _ hlast] at hx
    rw [h.behind _ hlast x hx, h'.behind _ hlast x hx]

@[simp] theorem Segment.coordAt_hold (s d t : F) (p : Coord F) : (Segment.hold s d p).coordAt t = p := by
  simp [Segment.coordAt, Segment.distanceAt, Segment.hold, Coord.origin]

namespace Cursor

variable {c : Cursor F} {a : Stand F} {t x : F}

/-- At a place that contains a time the point is that of the path. -/
theorem Within.coordAt_eq (h : c.Within a t x) (hu : Unbroken c.segments.toList) :
    c.current.coordAt t = pathAt a.place c.segments.toList x := by
  refine Coord.eq_of_get fun i => ?_
  rw [Segment.get_coordAt, get_pathAt]
  exact h.axisAt_eq hu i

end Cursor

/-- The path of a row without gaps or jumps is its trajectory. -/
theorem pathAt_traces {row : List (Segment F)} {first : Segment F} (hf : row.head? = some first)
    (hj : Joined ⟨first.position, first.start⟩ row) (hu : Unbroken row) : Traces (pathAt first.position row) row := by
  have hpos : 0 < row.toArray.size := by
    cases row with
    | nil => cases hf
    | cons s rest => simp
  -- The cursors on the row all read the path.
  have hst : ∀ i : Int, Cursor.Steady ⟨row.toArray, hpos, i, none⟩ ⟨first.position, first.start⟩ :=
    fun i => ⟨rfl, ⟨first, hf, rfl⟩, hj⟩
  have hread : ∀ (i : Int) (s : Segment F) (x : F), (Cursor.mk row.toArray hpos i none).queued = s →
      (i < 0 ∨ 0 ≤ x - s.start) → ((row.length : Int) ≤ i ∨ x - s.start ≤ s.duration) →
        pathAt first.position row x = s.coordAt (x - s.start) := by
    rintro i s x rfl hlow hupp
    have hwithin : Cursor.Within ⟨row.toArray, hpos, i, none⟩ ⟨first.position, first.start⟩ _ x :=
      ⟨hst i, add_sub_cancel _ x, hlow, hupp.imp_left (by simp)⟩
    rw [← (hst i).current_eq, (hst i).current_eq, ← hwithin.coordAt_eq hu, (hst i).current_eq]
  constructor
  · intro first' hf' x hx
    obtain rfl : first = first' := Option.some.inj (hf.symm.trans hf')
    refine Coord.eq_of_get fun i => ?_
    have hbefore : ∀ s ∈ row, Side.left.Before x s.start := fun s hs => le_trans hx (hj.le_start s hs)
    rw [get_pathAt, Gauge.read_of_before hbefore]
    exact add_zero _
  · intro s hs x hlow hupp
    obtain ⟨i, hi⟩ := List.getElem?_of_mem hs
    obtain ⟨hlt, rfl⟩ := List.getElem?_eq_some_iff.1 hi
    refine hread i _ x ?_ (.inr (sub_nonneg.2 hlow)) (.inr (sub_le_iff_le_add'.2 hupp))
    simp [Cursor.queued, hlt]
  · intro last hl x hx
    have hat := Cursor.Steady.queued_of_ge (c := ⟨row.toArray, hpos, row.length, none⟩)
      (a := ⟨first.position, first.start⟩) (by simp)
    rw [Stand.after_of_getLast? _ hl] at hat
    rw [hread row.length _ x hat (.inr ?_) (.inl le_rfl), Segment.coordAt_hold]
    simpa [Segment.hold] using hx

/-! ## Walking through the holds -/

namespace Cursor

/-- Goes back until `time`, counted from the start of the place, is not negative, in front of the row too;
nothing if that takes more than a number of turns. -/
def backWithin (turns : Nat) (c : Cursor F) (time : F) : Option (Cursor F × F) :=
  if time < 0 then
    match turns with
    | 0 => none
    | turns + 1 => backWithin turns c.prev (time + c.prev.current.duration)
  else some (c, time)

/-- Goes ahead until `time` does not exceed the duration of the place, behind the row too. -/
def aheadWithin (turns : Nat) (c : Cursor F) (time : F) : Option (Cursor F × F) :=
  if c.current.duration < time then
    match turns with
    | 0 => none
    | turns + 1 => aheadWithin turns c.next (time - c.current.duration)
  else some (c, time)

/-- The point at `time`, counted from the start of the place, if neither walk takes more than a number of
turns. -/
def pointWithin (turns : Nat) (c : Cursor F) (time : F) : Option (Coord F) := do
  let (c, time) ← c.backWithin turns time
  let (c, time) ← c.aheadWithin turns time
  return c.current.coordAt time

variable {c : Cursor F} {a : Stand F} {t x : F}

theorem backWithin_of_nonneg (turns : Nat) (ht : 0 ≤ t) : c.backWithin turns t = some (c, t) := by
  rw [backWithin.eq_def, if_neg (not_lt.2 ht)]

theorem aheadWithin_of_le (turns : Nat) (ht : t ≤ c.current.duration) : c.aheadWithin turns t = some (c, t) := by
  rw [aheadWithin.eq_def, if_neg (not_lt.2 ht)]

/-- A walk back from a time in front of the place ends in the place that contains it. -/
theorem Steady.backWithin_spec (h : c.Steady a) (ht : t < 0) {w turns : Nat} (hw : -t ≤ w)
    (hturns : c.index.toNat + w ≤ turns) :
    ∃ d u, c.backWithin turns t = some (d, u) ∧ d.segments = c.segments ∧
      d.Within a u (c.queued.start + t) ∧ u ≤ d.current.duration := by
  induction turns generalizing c t w with
  | zero =>
    obtain rfl : w = 0 := by omega
    rw [Nat.cast_zero] at hw
    linarith
  | succ turns ih =>
    obtain ⟨w', hw', hturns'⟩ := h.budget_prev ht hw hturns
    have hstart : c.prev.queued.start + (t + c.prev.queued.duration) = c.queued.start + t := by
      have hnext := h.prev.next_start
      rw [next_prev, Segment.finish] at hnext
      rw [hnext]
      ring
    rw [backWithin, if_pos ht, h.prev.current_eq, ← hstart]
    by_cases hneg : t + c.prev.queued.duration < 0
    · exact ih h.prev hneg hw' hturns'
    · have hle : t + c.prev.queued.duration ≤ c.prev.queued.duration := by linarith
      refine ⟨c.prev, _, backWithin_of_nonneg turns (not_lt.1 hneg), rfl,
        ⟨h.prev, rfl, .inr (not_lt.1 hneg), .inr hle⟩, ?_⟩
      rwa [h.prev.current_eq]

/-- A walk ahead ends in the place that contains the time. -/
theorem Steady.aheadWithin_spec (h : c.Steady a) (ht : 0 ≤ t) {w turns : Nat} (hw : t - c.queued.duration ≤ w)
    (hturns : (c.segments.size - (c.index + 1) : Int).toNat + w ≤ turns) :
    ∃ d u, c.aheadWithin turns t = some (d, u) ∧ d.segments = c.segments ∧
      d.Within a u (c.queued.start + t) := by
  induction turns generalizing c t w with
  | zero =>
    obtain rfl : w = 0 := by omega
    have hle : t ≤ c.queued.duration := by
      rw [Nat.cast_zero] at hw
      linarith
    exact ⟨c, t, aheadWithin_of_le 0 (by rwa [h.current_eq]), rfl, h, rfl, .inr ht, .inr hle⟩
  | succ turns ih =>
    by_cases hgo : c.queued.duration < t
    · obtain ⟨w', hw', hturns'⟩ := h.budget_next hgo hw hturns
      have hstart : c.next.queued.start + (t - c.queued.duration) = c.queued.start + t := by
        rw [h.next_start, Segment.finish]
        ring
      rw [aheadWithin, h.current_eq, if_pos hgo, ← hstart]
      exact ih h.next (sub_pos.2 hgo).le hw' hturns'
    · rw [not_lt] at hgo
      exact ⟨c, t, aheadWithin_of_le _ (by rwa [h.current_eq]), rfl, h, rfl, .inr ht, .inr hgo⟩

/-- Given enough turns the walk ends at the point of the path. -/
theorem Steady.pointWithin_eq (h : c.Steady a) (hu : Unbroken c.segments.toList) (t : F) :
    ∃ turns, ∀ n ≥ turns,
      c.pointWithin n t = some (pathAt a.place c.segments.toList (c.queued.start + t)) := by
  by_cases ht : t < 0
  · refine ⟨c.index.toNat + ⌈-t⌉₊, fun n hn => ?_⟩
    obtain ⟨d, u, hback, hsegs, hwithin, hle⟩ := h.backWithin_spec ht (Nat.le_ceil (-t)) hn
    rw [pointWithin, hback]
    simp only [Option.bind_eq_bind, Option.bind_some, aheadWithin_of_le n hle, Option.pure_def]
    rw [hwithin.coordAt_eq (by rwa [hsegs]), hsegs]
  · rw [not_lt] at ht
    refine ⟨(c.segments.size - (c.index + 1) : Int).toNat + ⌈t - c.queued.duration⌉₊, fun n hn => ?_⟩
    obtain ⟨d, u, hahead, hsegs, hwithin⟩ := h.aheadWithin_spec ht (Nat.le_ceil _) hn
    rw [pointWithin, backWithin_of_nonneg n ht]
    simp only [Option.bind_eq_bind, Option.bind_some, hahead, Option.pure_def]
    rw [hwithin.coordAt_eq (by rwa [hsegs]), hsegs]

end Cursor

/-! ## The cursors of a queue -/

namespace Queue

variable {q : Queue F}

/-- A queue without gaps or jumps has one trajectory. From whichever segment a cursor sets out, however far
the time lies ahead or behind, it reads the point of the trajectory at that time; so does the walk through
the holds outside the queue, once it is given enough turns. -/
theorem cursors_trace (hempty : q.isEmpty = false) (hq : Contiguous q.active) (hu : Unbroken q.active.toList) :
    ∃ path : F → Coord F, (∀ other, Traces other q.active.toList ↔ other = path) ∧
      ∀ (i : Nat) (s : Segment F), q.active[i]? = some s → ∃ c, q.cursor? i = some c ∧
        ∀ t, c.coordAt t = path (s.start + t) ∧
          ∃ turns, ∀ n ≥ turns, c.pointWithin n t = some (path (s.start + t)) := by
  obtain ⟨first, hf⟩ : ∃ first, q.active.toList.head? = some first :=
    ⟨_, List.head?_eq_some_head (by simpa [isEmpty] using hempty)⟩
  have hj := hq.joined hf
  have htraces := pathAt_traces hf hj hu
  refine ⟨pathAt first.position q.active.toList, fun other => ⟨fun h => h.unique htraces hf hj, ?_⟩, ?_⟩
  · rintro rfl
    exact htraces
  · intro i s hs
    obtain ⟨c, hc, hcurrent⟩ := exists_cursor hs
    obtain ⟨hst, hsegs, -⟩ := cursor?_steady hj hf hc
    have hqueued : c.queued = s := by rw [← hst.current_eq, hcurrent]
    refine ⟨c, hc, fun t => ⟨?_, ?_⟩⟩
    · refine Coord.eq_of_get fun a => ?_
      have hread : (c.coordAt t).get a = c.axisAt a t := rfl
      rw [hread, hst.seek_axisAt_eq (by rwa [hsegs]), hqueued, hsegs, get_pathAt]
    · have hpoint := hst.pointWithin_eq (by rwa [hsegs]) t
      rwa [hqueued, hsegs] at hpoint

/-- Where `twoMoves` stands a minute before it begins, in the middle of its second move, and a minute later. -/
def twoMovesPoints : List (ℚ × Coord ℚ) := [(-60, ⟨0, 0, 0⟩), (9 / 2, ⟨2, 3 / 2, 0⟩), (60, ⟨2, 3, 0⟩)]

/-- From every segment of `twoMoves` the walk to each of these times ends, at that point of the trajectory. -/
theorem cursors_trace_twoMoves : ∃ path : ℚ → Coord ℚ, Traces path twoMoves.active.toList ∧
    ∀ x p, (x, p) ∈ twoMovesPoints → path x = p ∧
      ∀ i < 4, ∃ s c, twoMoves.active[i]? = some s ∧ twoMoves.cursor? i = some c ∧
        c.coordAt (x - s.start) = p ∧ ∃ turns, c.pointWithin turns (x - s.start) = some p := by
  have hjoined : Joined ⟨⟨0, 0, 0⟩, 0⟩ twoMoves.active.toList := by decide +kernel
  have hshows : ∀ e ∈ twoMovesPoints, twoMoves.Shows 4 e.1 e.2 := by decide +kernel
  obtain ⟨path, hpath, hcursors⟩ := cursors_trace (q := twoMoves) (by decide +kernel) hjoined.contiguous
    (by decide +kernel)
  have hread : ∀ x p, (x, p) ∈ twoMovesPoints → ∀ i < 4, ∃ s c,
      twoMoves.active[i]? = some s ∧ twoMoves.cursor? i = some c ∧ path x = p ∧
        c.coordAt (x - s.start) = p ∧ ∃ turns, c.pointWithin turns (x - s.start) = some p := by
    intro x p hx i hi
    have hsize : twoMoves.active.size = 4 := by decide +kernel
    have hs := twoMoves.active.getElem?_eq_getElem (i := i) (by omega)
    obtain ⟨c, hc, hcurrent⟩ := exists_cursor hs
    obtain ⟨c', hc', htraced⟩ := hcursors i _ hs
    obtain rfl : c = c' := Option.some.inj (hc.symm.trans hc')
    obtain ⟨hcoord, turns, hpoint⟩ := htraced (x - twoMoves.active[i].start)
    have hshown := hshows _ hx i hi c hc
    rw [hcurrent] at hshown
    rw [add_sub_cancel] at hcoord hpoint
    rw [hcoord] at hshown
    rw [hshown] at hcoord hpoint
    exact ⟨_, c, hs, hc, hshown, hcoord, turns, hpoint turns le_rfl⟩
  refine ⟨path, (hpath path).2 rfl, fun x p hx => ⟨?_, fun i hi => ?_⟩⟩
  · obtain ⟨_, _, _, _, hvalue, _⟩ := hread x p hx 0 (by norm_num)
    exact hvalue
  · obtain ⟨s, c, hs, hc, _, hrest⟩ := hread x p hx i hi
    exact ⟨s, c, hs, hc, hrest⟩

end Queue

end PrinterMotion
