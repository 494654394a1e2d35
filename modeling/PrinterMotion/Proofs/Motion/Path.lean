/-
The path of a queue: the point that its cursors read at each time. Holding, queueing and retiring do not
change it. In a row whose segments meet and carry on where the one before them ends, the point is the
place where the row begins and the distance travelled from there. Holds add nothing to that distance, what
is queued later adds nothing in front of its start, and what is retired is already part of the place where
the rest of the row begins.

A segment that begins within `joinTolerance` behind the end of the queue is queued without a hold in front
of it. Segments then do not meet, and only cursors on the segments in front of it keep their path, up to
the end that the queue had.
-/
import PrinterMotion.Proofs.Motion.Travel

namespace PrinterMotion

variable {F : Type} [Exact F]

/-! ## Rows -/

theorem Joined.plays : ∀ {a : Stand F} {row : List (Segment F)}, Joined a row → Plays a row row (a.after row)
  | a, [], _ => .nil a
  | _, _ :: _, ⟨hs, hd, hrest⟩ => .move hs hd hrest.plays

theorem Stand.after_of_getLast? (a : Stand F) {row : List (Segment F)} {last : Segment F}
    (h : row.getLast? = some last) : a.after row = ⟨last.target, last.finish⟩ := by
  obtain ⟨init, rfl⟩ := List.getLast?_eq_some_iff.1 h
  rw [after_append]
  rfl

/-- A hold behind a row plays nothing, and begins where the row ends. -/
theorem Bridges.extend {last h : Segment F} {a : Stand F} {time : F} {row : List (Segment F)}
    (hb : Bridges last h time) (hlast : row.getLast? = some last) (hj : Joined a row) (hu : Unbroken row) :
    Unbroken (row ++ [h]) ∧ ∃ b, Plays a (row ++ [h]) row b := by
  constructor
  · refine isChain_glue hu ?_
    rw [hlast]
    exact .cons_cons hb.place (.singleton h)
  · have hafter := a.after_of_getLast? hlast
    have hold : h = .hold (a.after row).time h.duration (a.after row).place := by
      rw [hafter, ← hb.start, ← hb.place]
      exact hb.still
    have hplays : Plays (a.after row) [h] [] ⟨(a.after row).place, (a.after row).time + h.duration⟩ := by
      rw [hold]
      exact .hold h.duration hb.lasts (.nil _)
    have hall := hj.plays.append hplays
    rw [List.append_nil] at hall
    exact ⟨_, hall⟩

/-- What is left of an unbroken row begins where the part that is gone ends. -/
theorem Unbroken.position_eq {gone rest : List (Segment F)} {s first : Segment F}
    (h : Unbroken (gone ++ s :: rest)) (hfirst : (gone ++ s :: rest).head? = some first) :
    s.position = endPlace first.position gone := by
  rcases List.eq_nil_or_concat gone with rfl | ⟨init, last, rfl⟩
  · cases hfirst
    rfl
  · rw [List.concat_eq_append] at h ⊢
    rw [endPlace, List.foldl_append]
    exact (List.isChain_append.1 h).2.2 last (by simp) s rfl

/-- The point at a time in a row that begins at `p`. -/
def pathAt (p : Coord F) (row : List (Segment F)) (x : F) : Coord F :=
  ⟨p.x + (Gauge.travel .x).read .left p row x, p.y + (Gauge.travel .y).read .left p row x,
    p.z + (Gauge.travel .z).read .left p row x⟩

theorem get_pathAt (p : Coord F) (row : List (Segment F)) (x : F) (i : Axis) :
    (pathAt p row x).get i = p.get i + (Gauge.travel i).read .left p row x := by
  cases i <;> rfl

/-- Rows that play the same motions have the same path. -/
theorem pathAt_of_plays {a b : Stand F} {row ms : List (Segment F)} (h : Plays a row ms b) (x : F) :
    pathAt a.place row x = pathAt a.place ms x := by
  simp only [pathAt, Gauge.read_row h]

/-- Without what has ended by then the path is the same from a time on. -/
theorem pathAt_of_behind {gone rest : List (Segment F)} {s first : Segment F} {x : F}
    (hj : Joined ⟨first.position, first.start⟩ (gone ++ s :: rest)) (hu : Unbroken (gone ++ s :: rest))
    (hfirst : (gone ++ s :: rest).head? = some first) (hgone : ∀ u ∈ gone, u.finish ≤ x) :
    pathAt first.position (gone ++ s :: rest) x = pathAt s.position (s :: rest) x := by
  obtain ⟨hjgone, hjrest⟩ := hj.of_append
  have hend := hu.position_eq hfirst
  have hbehind : ∀ u ∈ gone, 0 ≤ u.duration ∧ ¬ Side.right.Before x u.finish :=
    fun u hu => ⟨hjgone.duration_nonneg u hu, not_lt.2 (hgone u hu)⟩
  refine Coord.eq_of_get fun i => ?_
  have hsmooth := Gauge.travel_smooth (F := F) i
  have hpassed : (Gauge.travel i).passed first.position gone = s.position.get i - first.position.get i := by
    rw [hend]
    refine passed_travel i first.position hu.left_of_append fun u hu => ?_
    rw [List.head?_append, Option.mem_def.1 hu] at hfirst
    cases hfirst
    rfl
  rw [get_pathAt, get_pathAt, ← hsmooth.read_right x _ hj, Gauge.read_append_of_behind hbehind, ← hend, hpassed,
    hsmooth.read_right x _ hjrest]
  ring

/-! ## Cursors -/

namespace Cursor

variable {c : Cursor F} {a : Stand F} {t x : F} {row later : List (Segment F)}

/-- The cursor stands in `row`, or in front of it, and `later` follows. -/
structure Ahead (c : Cursor F) (row later : List (Segment F)) : Prop where
  replaced : c.replaced = none
  segments : c.segments.toList = row ++ later
  index : c.index < row.length

/-- The cursor at the same place of another row. -/
def onto (c : Cursor F) (row : List (Segment F)) (h : row ≠ []) : Cursor F :=
  ⟨row.toArray, by simpa [List.length_pos_iff] using h, c.index, none⟩

omit [Exact F] in
@[simp] theorem onto_index (c : Cursor F) (h : row ≠ []) : (c.onto row h).index = c.index := rfl

omit [Exact F] in
@[simp] theorem onto_size (c : Cursor F) (h : row ≠ []) : (c.onto row h).segments.size = row.length :=
  List.size_toArray

omit [Exact F] in
theorem Ahead.size_eq (h : c.Ahead row later) : c.segments.size = row.length + later.length := by
  rw [← Array.length_toList, h.segments, List.length_append]

/-- What is read in front of the end of a row does not depend on what follows. -/
theorem Ahead.current_onto (h : c.Ahead row later) (hne : row ≠ []) : (c.onto row hne).current = c.current := by
  have hsize := h.size_eq
  have hindex := h.index
  have hget : ∀ (i : Nat) (hi : i < row.length), c.segments[i] = row[i] := by
    intro i hi
    simp only [← Array.getElem_toList, h.segments]
    exact List.getElem_append_left hi
  have hpos := List.length_pos_iff.2 hne
  simp only [current, h.replaced, queued, onto, List.size_toArray, List.getElem_toArray]
  split
  · rw [hget 0 hpos]
  · rw [dif_pos (by omega), dif_pos (by omega), hget _ (by omega)]

theorem Steady.onto (h : c.Steady a) (hrow : c.segments.toList = row ++ later) (hne : row ≠ []) :
    (c.onto row hne).Steady a := by
  obtain ⟨s, hs, hp⟩ := h.place
  have hj := h.joined
  rw [hrow] at hj hs
  refine ⟨rfl, ⟨s, ?_, hp⟩, hj.of_append.1⟩
  rwa [List.head?_append_of_ne_nil _ hne] at hs

/-! ### Rows that meet what follows -/

/-- A time in front of what follows lies in the row. -/
theorem Within.index_lt (h : c.Within a t x) (hrow : c.segments.toList = row ++ later) (hne : later ≠ [])
    (hlater : ∀ s ∈ later, x < s.start) : c.index < row.length := by
  by_contra hi
  rw [not_lt] at hi
  have ht : 0 ≤ t := h.low.resolve_left (by omega)
  have hle : c.queued.start ≤ x := by linarith [h.time]
  have hsize : c.segments.size = row.length + later.length := by
    rw [← Array.length_toList, hrow, List.length_append]
  refine absurd hle (not_le.2 ?_)
  by_cases hin : c.index < c.segments.size
  · have hmem : c.queued ∈ later := by
      rw [queued, if_neg (by omega), dif_pos (by omega)]
      simp only [← Array.getElem_toList, hrow]
      rw [List.getElem_append_right (by omega)]
      exact List.getElem_mem _
    exact hlater _ hmem
  · -- Behind the row, and so behind one of those that follow.
    obtain ⟨s, hs⟩ := List.exists_mem_of_ne_nil later hne
    have hmem : s ∈ c.segments.toList := by rw [hrow]; exact List.mem_append_right _ hs
    have hfinish := h.steady.joined.finish_le_after s hmem
    have hstart := Segment.start_le_finish (h.steady.joined.duration_nonneg s hmem)
    have hpos : (0 : F) ≤ (c.index - c.segments.size : Int) := by exact_mod_cast (by omega)
    rw [Steady.queued_of_ge (a := a) (not_lt.1 hin)]
    calc x < s.start := hlater s hs
      _ ≤ (a.after c.segments.toList).time := hstart.trans hfinish
      _ ≤ _ := le_add_of_nonneg_right hpos

/-- The point at a time in front of what follows an unbroken row. -/
theorem Steady.coordAt_eq (h : c.Steady a) (hrow : c.segments.toList = row ++ later) (hne : row ≠ [])
    (hu : Unbroken row) (hlater : ∀ s ∈ later, x < s.start) :
    c.coordAt (x - c.current.start) = pathAt a.place row x := by
  obtain ⟨hwithin, hsegs⟩ := h.seek_within (x - c.current.start)
  have hx : c.queued.start + (x - c.current.start) = x := by rw [h.current_eq]; ring
  rw [hx] at hwithin
  have hrow' : (c.seek (x - c.current.start)).1.segments.toList = row ++ later := by rw [hsegs, hrow]
  rw [coordAt]
  generalize c.seek (x - c.current.start) = d at hwithin hrow'
  refine Coord.eq_of_get fun i => ?_
  rw [Segment.get_coordAt, get_pathAt]
  rcases eq_or_ne later [] with rfl | hl
  · rw [List.append_nil] at hrow'
    rw [hwithin.axisAt_eq (by rwa [hrow']), hrow']
  · -- The same place of the row alone contains the time as well.
    have hahead : d.1.Ahead row later := ⟨hwithin.steady.replaced, hrow', hwithin.index_lt hrow' hl hlater⟩
    have hst := hwithin.steady.onto hrow' hne
    have hcurrent := hahead.current_onto hne
    have hqueued : (d.1.onto row hne).queued = d.1.queued := by
      rw [← hst.current_eq, hcurrent, hwithin.steady.current_eq]
    have hupp := hwithin.upp.resolve_left (by have := hahead.size_eq; have := hahead.index; omega)
    have halone : (d.1.onto row hne).Within a d.2 x := by
      refine ⟨hst, ?_, hwithin.low, .inr ?_⟩
      · rw [hqueued, hwithin.time]
      · rwa [hqueued]
    rw [← hcurrent]
    exact halone.axisAt_eq hu i

/-! ### Whatever follows -/

omit [Exact F] in
theorem Ahead.prev (h : c.Ahead row later) : c.prev.Ahead row later :=
  ⟨h.replaced, h.segments, by have := h.index; simp only [prev_index]; omega⟩

/-- Going back in front of the end of a row. -/
theorem Ahead.rewind (h : c.Ahead row later) (hne : row ≠ []) (t : F) : (c.rewind t).1.Ahead row later ∧
    (c.onto row hne).rewind t = ((c.rewind t).1.onto row hne, (c.rewind t).2) := by
  fun_induction Cursor.rewind c t with
  | case1 c t hi =>
    refine ⟨h, ?_⟩
    rw [Cursor.rewind, onto_index, if_pos hi]
  | case2 c t hi hneg p ih =>
    obtain ⟨hahead, hrewind⟩ := ih h.prev
    refine ⟨hahead, ?_⟩
    rw [← hrewind, ← h.prev.current_onto hne]
    rw [Cursor.rewind, onto_index, if_neg hi, if_pos hneg]
    rfl
  | case3 c t hi hneg =>
    refine ⟨h, ?_⟩
    rw [Cursor.rewind, onto_index, if_neg hi, if_neg hneg]

/-- The last segment ends where the row does. -/
theorem Steady.finish_last (h : c.Steady a) (hi : c.index + 1 = c.segments.size) :
    c.queued.finish = (a.after c.segments.toList).time := by
  have hnext := queued_of_ge (c := c.next) (a := a) (by simp [hi])
  rw [← h.next_start, hnext]
  simp [Segment.hold, hi]

/-- Going ahead to a time up to the end of a row. -/
theorem Ahead.forward (h : c.Ahead row later) (hne : row ≠ []) (hst : (c.onto row hne).Steady a)
    (ht : c.current.start + t ≤ (a.after row).time) :
    (c.forward t).1.Ahead row later ∧ (c.onto row hne).forward t = ((c.forward t).1.onto row hne, (c.forward t).2) := by
  fun_induction Cursor.forward c t with
  | case1 c t hi =>
    have := h.size_eq
    have := h.index
    omega
  | case2 c t hi duration hlt ih =>
    have hcurrent := h.current_onto hne
    have hqueued := hst.current_eq
    have hindex : c.index + 1 < row.length := by
      -- Otherwise the row would end in front of the time.
      by_contra hend
      have hlast := hst.finish_last (by
        have := h.index
        rw [onto_index, onto_size]
        omega)
      have hafter : (a.after (c.onto row hne).segments.toList).time = (a.after row).time := rfl
      rw [hafter, ← hqueued, hcurrent, Segment.finish] at hlast
      linarith
    have hnext : c.next.Ahead row later := ⟨h.replaced, h.segments, hindex⟩
    have hstart : c.next.current.start = c.current.finish := by
      rw [← hnext.current_onto hne, ← hcurrent, hqueued, ← hst.next_start]
      exact congrArg _ hst.next.current_eq
    have hdur : duration = c.current.duration := rfl
    obtain ⟨hahead, hforward⟩ := ih hnext hst.next (by rw [hstart, Segment.finish]; linarith)
    refine ⟨hahead, ?_⟩
    rw [← hforward, Cursor.forward, if_neg (by have := h.index; rw [onto_index, onto_size]; omega)]
    simp only [hcurrent]
    rw [if_pos hlt]
    rfl
  | case3 c t hi duration hle =>
    refine ⟨h, ?_⟩
    rw [Cursor.forward, if_neg (by have := h.index; rw [onto_index, onto_size]; omega)]
    simp only [h.current_onto hne]
    rw [if_neg hle]

/-- Up to the end of a row cursors in it read the same, whatever follows. -/
theorem Ahead.coordAt_eq (h : c.Ahead row later) (hne : row ≠ []) (hst : (c.onto row hne).Steady a)
    (hx : x ≤ (a.after row).time) :
    c.coordAt (x - c.current.start) = (c.onto row hne).coordAt (x - (c.onto row hne).current.start) := by
  obtain ⟨hback, hrewind⟩ := h.rewind hne (x - c.current.start)
  obtain ⟨hst', -, htime, -⟩ := hst.rewind_within (x - c.current.start)
  rw [hrewind] at hst' htime
  rw [← hst'.current_eq, ← hst.current_eq, hback.current_onto hne, h.current_onto hne] at htime
  obtain ⟨hahead, hforward⟩ := hback.forward hne hst' (t := (c.rewind (x - c.current.start)).2) (by
    rw [htime]
    linarith)
  simp only [coordAt, seek, h.current_onto hne, hrewind, hforward, hahead.current_onto hne]

end Cursor

/-! ## Queues -/

namespace Queue

/-- The cursors on the first `n` segments read the point `p` at the time `x`. -/
def Shows (q : Queue F) (n : Nat) (x : F) (p : Coord F) : Prop :=
  ∀ i < n, ∀ c ∈ q.cursor? i, c.coordAt (x - c.current.start) = p

instance (q : Queue F) (n : Nat) (x : F) (p : Coord F) : Decidable (q.Shows n x p) :=
  inferInstanceAs (Decidable (∀ i < n, ∀ c ∈ q.cursor? i, _))

variable {q q' : Queue F} {x : F} {first : Segment F}

theorem cursor?_steady (hj : Joined ⟨first.position, first.start⟩ q.active.toList)
    (hf : q.active.toList.head? = some first) {i : Nat} {c : Cursor F} (hc : c ∈ q.cursor? i) :
    c.Steady ⟨first.position, first.start⟩ ∧ c.segments = q.active ∧ c.index = i := by
  simp only [cursor?, Cursor.at?, Option.mem_def] at hc
  split at hc
  · cases hc
    exact ⟨⟨rfl, ⟨first, hf, rfl⟩, hj⟩, rfl, rfl⟩
  · cases hc

theorem shows_of_append {row later : List (Segment F)} (hj : Joined ⟨first.position, first.start⟩ q.active.toList)
    (hf : row.head? = some first) (hrow : q.active.toList = row ++ later) (hu : Unbroken row)
    (hlater : ∀ s ∈ later, x < s.start) : q.Shows q.size x (pathAt first.position row x) := by
  have hne : row ≠ [] := by rintro rfl; cases hf
  have hhead : q.active.toList.head? = some first := by rw [hrow, List.head?_append_of_ne_nil _ hne, hf]
  intro i _ c hc
  obtain ⟨hst, hsegs, -⟩ := cursor?_steady hj hhead hc
  exact hst.coordAt_eq (by rw [hsegs, hrow]) hne hu hlater

theorem shows_path (hj : Joined ⟨first.position, first.start⟩ q.active.toList)
    (hf : q.active.toList.head? = some first) (hu : Unbroken q.active.toList) (x : F) :
    q.Shows q.size x (pathAt first.position q.active.toList x) :=
  shows_of_append hj hf (List.append_nil _).symm hu fun _ hs => by cases hs

theorem playing_of_joined (hj : Joined ⟨first.position, first.start⟩ q.active.toList)
    (hf : q.active.toList.head? = some first) : q.Playing ⟨first.position, first.start⟩ q.active.toList
      (Stand.after ⟨first.position, first.start⟩ q.active.toList) :=
  ⟨⟨first, hf, rfl⟩, hj.plays⟩

/-- Holding the last position does not change the path. -/
theorem holdUntil_shows (hj : Joined ⟨first.position, first.start⟩ q.active.toList)
    (hf : q.active.toList.head? = some first) (hu : Unbroken q.active.toList) (time : F) :
    ∃ q', q.holdUntil time = .ok q' ∧ ∀ x, q'.Shows q'.size x (pathAt first.position q.active.toList x) := by
  obtain ⟨q', hq', hrow⟩ := holdUntil_row q time
  refine ⟨q', hq', fun x => ?_⟩
  rcases hrow with hrow | ⟨last, hlast, h, hb, hrow⟩
  · rw [← hrow] at hj hf hu ⊢
    exact shows_path hj hf hu x
  · rw [← Array.getLast?_toList] at hlast
    obtain ⟨hunbroken, b, hplays⟩ := hb.extend hlast hj hu
    rw [← pathAt_of_plays hplays x]
    rw [← hrow] at hplays hunbroken ⊢
    refine shows_path hplays.joined ?_ hunbroken x
    rw [hrow, List.head?_append, hf]
    rfl

/-- What is queued behind a row does not change the path in front of it. -/
theorem addAll_shows (hj : Joined ⟨first.position, first.start⟩ q.active.toList)
    (hf : q.active.toList.head? = some first) (hu : Unbroken q.active.toList) {segs : List (Segment F)} {c : Stand F}
    (hsegs : Joined c segs) (hjoins : q.Joins c) (hx : x < c.time) :
    ∃ q', q.addAll segs = (q', none) ∧ q'.Shows q'.size x (pathAt first.position q.active.toList x) := by
  have hplay : q.Playing ⟨first.position, first.start⟩ q.active.toList _ := ⟨⟨first, hf, rfl⟩, hj.plays⟩
  obtain ⟨q', b, hq', -, hplay'⟩ := addAll_playing hplay hsegs fun _ => hjoins
  refine ⟨q', hq', ?_⟩
  obtain ⟨taken, grown, htaken, hgrows, hrow⟩ := addAll_grows segs q
  rw [hq'] at hrow
  have hj' := hplay'.joined
  obtain ⟨last, hlast⟩ : ∃ last, q.active.back? = some last := by
    obtain ⟨last, hl, -⟩ := hplay.back?_eq
    exact ⟨last, hl⟩
  rw [hlast] at hgrows
  cases hgrows with
  | nil =>
    rw [List.append_nil] at hrow
    rw [← hrow] at hf hu ⊢
    exact shows_path hj' hf hu x
  | @take _ s front taken grown hd hfront hgrows =>
    -- The first segment begins behind `x`, and so does all that follows it.
    have hstart : s.start = c.time := by
      obtain ⟨rest, rfl⟩ := htaken
      exact hsegs.1
    simp only [← List.append_assoc] at hrow
    have hlater : ∀ u ∈ s :: grown, x < u.start := by
      intro u hu
      rw [hrow] at hj'
      have hrest := hj'.of_append.2
      have hle := hrest.le_start u hu
      rw [← hrest.1, hstart] at hle
      exact hx.trans_le hle
    rw [← Array.getLast?_toList] at hlast
    cases hfront with
    | gap hb =>
      obtain ⟨hunbroken, b, hplays⟩ := hb.extend hlast hj hu
      rw [← pathAt_of_plays hplays x]
      refine shows_of_append hj' ?_ hrow hunbroken hlater
      rw [List.head?_append, hf]
      rfl
    | meet hm =>
      rw [List.append_nil] at hrow
      exact shows_of_append hj' hf hrow hu hlater

/-- Whatever is queued, the segments in front of it show the same path up to their end. -/
theorem shows_of_grown (hj : Joined ⟨first.position, first.start⟩ q.active.toList)
    (hf : q.active.toList.head? = some first) (hu : Unbroken q.active.toList) {grown : List (Segment F)}
    (hrow : q'.active.toList = q.active.toList ++ grown) (hx : ∀ last ∈ q.active.back?, x ≤ last.finish) :
    q'.Shows q.size x (pathAt first.position q.active.toList x) := by
  have hne : q.active.toList ≠ [] := by rintro hnil; rw [hnil] at hf; cases hf
  intro i hi c hc
  have hi' : i < q.active.size := hi
  simp only [cursor?, Cursor.at?, Option.mem_def] at hc
  split at hc
  · cases hc
    have hahead : Cursor.Ahead ⟨q'.active, by omega, i, none⟩ q.active.toList grown :=
      ⟨rfl, hrow, by simpa using hi'⟩
    have hold : q.cursor? i = some (Cursor.onto ⟨q'.active, by omega, i, none⟩ q.active.toList hne) := by
      simp [cursor?, Cursor.at?, Cursor.onto, hi']
    have hst := (cursor?_steady hj hf hold).1
    rw [hahead.coordAt_eq hne hst ?_]
    · exact shows_path hj hf hu x i hi _ hold
    · obtain ⟨last, hlast⟩ : ∃ last, q.active.back? = some last := by
        rw [← Array.getLast?_toList]
        exact ⟨_, List.getLast?_eq_some_getLast hne⟩
      rw [Stand.after_of_getLast? _ ((Array.getLast?_toList ..).trans hlast)]
      exact hx last hlast
  · cases hc

/-- Retiring does not change the path from its time on. -/
theorem finalize_shows (hj : Joined ⟨first.position, first.start⟩ q.active.toList)
    (hf : q.active.toList.head? = some first) (hu : Unbroken q.active.toList) {time : F} (clear : F)
    (hne : (q.finalize time clear).isEmpty = false) (hx : time ≤ x) :
    (q.finalize time clear).Shows (q.finalize time clear).size x (pathAt first.position q.active.toList x) := by
  have hrow := finalize_active q time clear
  have hsplit := List.takeWhile_append_dropWhile (p := fun s => decide (s.finish ≤ time)) (l := q.active.toList)
  rw [← hrow] at hsplit
  cases hleft : (q.finalize time clear).active.toList with
  | nil => simp_all [isEmpty]
  | cons s rest =>
    rw [hleft] at hsplit
    have hgone : ∀ u ∈ q.active.toList.takeWhile (fun s => decide (s.finish ≤ time)), u.finish ≤ x := by
      intro u hu
      have hend := List.mem_takeWhile_imp hu
      exact (of_decide_eq_true hend).trans hx
    rw [← hsplit] at hj hf hu ⊢
    have hjrest := hj.of_append.2
    have hj' : Joined ⟨s.position, s.start⟩ (s :: rest) := ⟨rfl, hjrest.2⟩
    rw [pathAt_of_behind hj hu hf hgone]
    rw [← hleft] at hj' ⊢
    exact shows_path hj' (by rw [hleft]; rfl) (by rw [hleft]; exact hu.right_of_append) x

/-! ## The path of a queue -/

/-- A queue of segments that meet and carry on where the one before them ends has one path, which its
cursors read whichever segment they are on. Holding does not change it. Queueing a segment or a trapezoid
that begins when the queue ends, or more than the join tolerance later, does not change it in front of its
start; and wherever it begins, the segments in front of it keep the path up to the end that the queue had.
Retiring does not change the path from its time on while something stays queued. -/
theorem path_kept {q : Queue F} (hne : q.isEmpty = false) (hc : Contiguous q.active)
    (hu : Unbroken q.active.toList) : ∃ path : F → Coord F,
      (∀ x, q.Shows q.size x (path x)) ∧
      (∀ time, ∃ q', q.holdUntil time = .ok q' ∧ ∀ x, q'.Shows q'.size x (path x)) ∧
      (∀ s q', q.add s = .ok q' →
        (q.Joins ⟨s.position, s.start⟩ → ∀ x < s.start, q'.Shows q'.size x (path x)) ∧
        ∀ x, (∀ last ∈ q.active.back?, x ≤ last.finish) → q'.Shows q.size x (path x)) ∧
      (∀ t q', q.append t = (q', none) →
        (q.Joins ⟨t.position, t.start⟩ → ∀ x < t.start, q'.Shows q'.size x (path x)) ∧
        ∀ x, (∀ last ∈ q.active.back?, x ≤ last.finish) → q'.Shows q.size x (path x)) ∧
      (∀ time clear, (q.finalize time clear).isEmpty = false →
        ∀ x, time ≤ x → (q.finalize time clear).Shows (q.finalize time clear).size x (path x)) := by
  obtain ⟨first, hf⟩ : ∃ first, q.active.toList.head? = some first := by
    cases hrow : q.active.toList with
    | nil => simp_all [isEmpty]
    | cons s rest => exact ⟨s, rfl⟩
  have hj := hc.joined hf
  refine ⟨pathAt first.position q.active.toList, shows_path hj hf hu, holdUntil_shows hj hf hu, ?_, ?_,
    fun time clear hleft x hx => finalize_shows hj hf hu clear hleft hx⟩
  · intro s q' hadd
    obtain ⟨hd, front, -, hrow⟩ := add_grows hadd
    refine ⟨fun hjoins x hx => ?_, fun x hx => shows_of_grown hj hf hu hrow hx⟩
    have hone : Joined ⟨s.position, s.start⟩ [s] := ⟨rfl, hd, trivial⟩
    obtain ⟨q'', hall, hshows⟩ := addAll_shows hj hf hu hone hjoins hx
    simp only [addAll, hadd] at hall
    cases hall
    exact hshows
  · intro t q' happend
    obtain ⟨taken, grown, -, -, hrow⟩ := addAll_grows t.segments q
    rw [append] at happend
    rw [happend] at hrow
    refine ⟨fun hjoins x hx => ?_, fun x hx => shows_of_grown hj hf hu hrow hx⟩
    obtain ⟨q'', hall, hshows⟩ := addAll_shows hj hf hu t.segments_joined hjoins hx
    rw [happend] at hall
    cases hall
    exact hshows

/-- A queue with a move from 1 s to 2 s, a hold and a move to 5 s. -/
def twoMoves : Queue ℚ :=
  after [.add ⟨1, 1, 2, 0, ⟨0, 0, 0⟩, ⟨1, 0, 0⟩, .cruise⟩, .add ⟨4, 1, 3, 0, ⟨2, 0, 0⟩, ⟨0, 1, 0⟩, .cruise⟩]

/-- A move that begins 2 s after `twoMoves` has ended, at another place. -/
def elsewhere : Segment ℚ := ⟨7, 1, 1, 0, ⟨9, 9, 9⟩, ⟨0, 0, 1⟩, .cruise⟩

/-- Before and after `elsewhere` is queued, and after the first move has been retired, every cursor reads
the same point inside the second move. -/
theorem path_kept_twoMoves : ∃ q' p, twoMoves.add elsewhere = .ok q' ∧ q'.Shows q'.size (9 / 2) p ∧
    twoMoves.Shows twoMoves.size (9 / 2) p ∧ (twoMoves.finalize 3 0).Shows (twoMoves.finalize 3 0).size (9 / 2) p ∧
      (twoMoves.size, (twoMoves.finalize 3 0).size) = (4, 2) := by
  have hjoined : Joined ⟨⟨0, 0, 0⟩, 0⟩ twoMoves.active.toList := by decide +kernel
  have hunbroken : Unbroken twoMoves.active.toList := by decide +kernel
  have hjoins : twoMoves.Joins ⟨elsewhere.position, elsewhere.start⟩ := by decide +kernel
  have hok : (twoMoves.add elsewhere).isOk = true := by decide +kernel
  obtain ⟨path, hshows, -, hadd, -, hfinalize⟩ := path_kept (by decide +kernel) hjoined.contiguous hunbroken
  cases hq : twoMoves.add elsewhere with
  | error e =>
    rw [hq] at hok
    cases hok
  | ok q' => exact ⟨q', path (9 / 2), rfl, (hadd _ _ hq).1 hjoins _ (by decide +kernel), hshows _,
      hfinalize 3 0 (by decide +kernel) _ (by norm_num), by decide +kernel⟩

/-- A queue whose last move, from 1 s to 2 s, is very fast. -/
def fastMove : Queue ℚ := after [.add ⟨1, 1, 10 ^ 9, 0, ⟨-10 ^ 9, 0, 0⟩, ⟨1, 0, 0⟩, .cruise⟩]

/-- A move as fast as that begins half of the join tolerance after the queue ends. -/
def shortGap : Segment ℚ := ⟨2 + 5 / 10 ^ 10, 1, 10 ^ 9, 0, ⟨0, 0, 0⟩, ⟨1, 0, 0⟩, .cruise⟩

/-- In a gap of less than the join tolerance no cursor reads the place where the queue had ended. -/
theorem not_path_kept_short_gap : ¬ ∀ (q q' : Queue ℚ) (s : Segment ℚ), q.isEmpty = false → Contiguous q.active →
    Unbroken q.active.toList → q.add s = .ok q' → (∀ last ∈ q.active.back?, last.finish ≤ s.start) →
    ∀ x < s.start, ∀ p, q.Shows q.size x p → q'.Shows q'.size x p := by
  intro h
  have hjoined : Joined ⟨⟨-10 ^ 9, 0, 0⟩, 0⟩ fastMove.active.toList := by decide +kernel
  obtain ⟨q', hq', hshows⟩ : ∃ q' ∈ (fastMove.add shortGap).toOption,
      ¬ q'.Shows q'.size (2 + 4 / 10 ^ 10) ⟨0, 0, 0⟩ := by decide +kernel
  exact hshows (h fastMove q' shortGap (by decide +kernel) hjoined.contiguous (by decide +kernel)
    (toOption_eq_some.1 hq') (by decide +kernel) (2 + 4 / 10 ^ 10) (by decide +kernel) _ (by decide +kernel))

end Queue

end PrinterMotion
