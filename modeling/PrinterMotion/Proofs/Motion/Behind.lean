/-
The end of a row. A cursor in the last part of a row, whose segments meet, reads the trajectory of that part from
its beginning on, whatever stands in front of it: the search for a time does not leave the part. Of a row without
gaps or jumps all cursors do.

So motion that is queued is read as it was queued, from its start on, in whatever state the queue was.
-/
import PrinterMotion.Proofs.Motion.Appending
import PrinterMotion.Proofs.Motion.Tracing

namespace PrinterMotion

variable {F : Type} [Exact F]

/-! ## Cursors -/

namespace Cursor

variable {c : Cursor F} {a : Stand F} {t x : F} {gone row : List (Segment F)}

/-- The cursor stands in `row`, or behind it, and `gone` is in front of that. -/
structure Behind (c : Cursor F) (gone row : List (Segment F)) : Prop where
  replaced : c.replaced = none
  segments : c.segments.toList = gone ++ row
  index : gone.length ≤ c.index

/-- The cursor at the place of another row that is a number of places further to the front. -/
def within (c : Cursor F) (row : List (Segment F)) (h : row ≠ []) (skipped : Nat) : Cursor F :=
  Cursor.onto { c with index := c.index - skipped } row h

omit [Exact F] in
@[simp] theorem within_index (c : Cursor F) (h : row ≠ []) (n : Nat) : (c.within row h n).index = c.index - n := rfl

omit [Exact F] in
@[simp] theorem within_size (c : Cursor F) (h : row ≠ []) (n : Nat) : (c.within row h n).segments.size = row.length :=
  List.size_toArray

omit [Exact F] in
theorem Behind.size_eq (h : c.Behind gone row) : c.segments.size = gone.length + row.length := by
  rw [← Array.length_toList, h.segments, List.length_append]

omit [Exact F] in
theorem Behind.next (h : c.Behind gone row) : c.next.Behind gone row :=
  ⟨h.replaced, h.segments, by have := h.index; rw [next_index]; omega⟩

omit [Exact F] in
theorem next_within (c : Cursor F) (hne : row ≠ []) (n : Nat) :
    c.next.within row hne n = (c.within row hne n).next := by
  simp only [within, Cursor.onto, Cursor.next, mk.injEq, and_true, true_and]
  omega

omit [Exact F] in
theorem prev_within (c : Cursor F) (hne : row ≠ []) (n : Nat) :
    c.prev.within row hne n = (c.within row hne n).prev := by
  simp only [within, Cursor.onto, Cursor.prev, mk.injEq, and_true, true_and]
  omega

/-- What is read in the last part of a row does not depend on what is in front of it. -/
theorem Behind.current_within (h : c.Behind gone row) (hne : row ≠ []) :
    (c.within row hne gone.length).current = c.current := by
  have hsize := h.size_eq
  have hindex := h.index
  have hpos := List.length_pos_iff.2 hne
  have hget : ∀ (i : Nat) (hi : i < row.length) (j : Nat) (hj : j < c.segments.size), j = gone.length + i →
      c.segments[j] = row[i] := by
    rintro i hi j hj rfl
    simp only [← Array.getElem_toList, h.segments]
    rw [List.getElem_append_right (by omega)]
    simp
  simp only [current, h.replaced, queued, within, onto, List.size_toArray, List.getElem_toArray]
  rw [if_neg (by omega), if_neg (by omega)]
  by_cases hi : c.index.toNat < c.segments.size
  · rw [dif_pos (by omega), dif_pos hi]
    exact (hget _ _ _ hi (by omega)).symm
  · have hplace : c.index - gone.length - row.length = c.index - c.segments.size := by omega
    rw [dif_neg (by omega), dif_neg hi, hget (row.length - 1) (by omega) _ (by omega) (by omega), hplace]

/-- Going back to a time behind the beginning of the part. -/
theorem Behind.rewind (h : c.Behind gone row) (hne : row ≠ []) (hst : (c.within row hne gone.length).Steady a)
    (ht : a.time ≤ c.current.start + t) : (c.rewind t).1.Behind gone row ∧
      (c.within row hne gone.length).rewind t = ((c.rewind t).1.within row hne gone.length, (c.rewind t).2) := by
  fun_induction Cursor.rewind c t with
  | case1 c t hi =>
    have := h.index
    omega
  | case2 c t hi hneg p ih =>
    have hcurrent := h.current_within hne
    have hindex : gone.length < c.index := by
      -- The first place of the part begins in front of the time.
      by_contra hlast
      have hfirst := hst.first_start (by
        have := h.index
        rw [within_index]
        omega)
      rw [← hst.current_eq, hcurrent] at hfirst
      rw [Scalar.zero_literal] at hneg
      linarith
    have hp : p.Behind gone row := by
      refine ⟨h.replaced, h.segments, ?_⟩
      have hprev : p.index = c.index - 1 := prev_index c
      omega
    have hpst : (p.within row hne gone.length).Steady a := by
      rw [prev_within]
      exact hst.prev
    have hstart : c.current.start = p.current.start + p.current.duration := by
      have hnext := hpst.next_start
      rw [prev_within, next_prev, ← hst.current_eq, hcurrent, ← prev_within, ← hpst.current_eq,
        hp.current_within hne] at hnext
      exact hnext
    obtain ⟨hbehind, hrewind⟩ := ih hp hpst (by rw [hstart] at ht; linarith)
    refine ⟨hbehind, ?_⟩
    rw [← hrewind, ← hp.current_within hne]
    rw [Cursor.rewind, if_neg (by rw [within_index]; omega), if_pos hneg, prev_within]
  | case3 c t hi hneg =>
    refine ⟨h, ?_⟩
    rw [Cursor.rewind, if_neg (by have := h.index; rw [within_index]; omega), if_neg hneg]

/-- Going ahead. -/
theorem Behind.forward (h : c.Behind gone row) (hne : row ≠ []) (t : F) : (c.forward t).1.Behind gone row ∧
    (c.within row hne gone.length).forward t = ((c.forward t).1.within row hne gone.length, (c.forward t).2) := by
  fun_induction Cursor.forward c t with
  | case1 c t hi =>
    refine ⟨h, ?_⟩
    rw [Cursor.forward, if_pos (by have := h.size_eq; rw [within_index, within_size]; omega)]
  | case2 c t hi duration hlt ih =>
    obtain ⟨hbehind, hforward⟩ := ih h.next
    refine ⟨hbehind, ?_⟩
    rw [← hforward, Cursor.forward, if_neg (by have := h.size_eq; rw [within_index, within_size]; omega)]
    simp only [h.current_within hne]
    rw [if_pos hlt, next_within]
  | case3 c t hi duration hle =>
    refine ⟨h, ?_⟩
    rw [Cursor.forward, if_neg (by have := h.size_eq; rw [within_index, within_size]; omega)]
    simp only [h.current_within hne]
    rw [if_neg hle]

/-- From the beginning of the part on cursors in it read the same, whatever is in front of it. -/
theorem Behind.coordAt_eq (h : c.Behind gone row) (hne : row ≠ []) (hst : (c.within row hne gone.length).Steady a)
    (hx : a.time ≤ x) : c.coordAt (x - c.current.start) =
      (c.within row hne gone.length).coordAt (x - (c.within row hne gone.length).current.start) := by
  obtain ⟨hback, hrewind⟩ := h.rewind hne hst (t := x - c.current.start) (by rwa [add_sub_cancel])
  obtain ⟨hahead, hforward⟩ := hback.forward hne (c.rewind (x - c.current.start)).2
  simp only [coordAt, seek, h.current_within hne, hrewind, hforward, hahead.current_within hne]

end Cursor

/-! ## Trajectories -/

section Trajectories
variable {path : F → Coord F} {s : Segment F} {rest : List (Segment F)}

theorem Segment.still_coordAt {h : Segment F} (hh : h = .hold h.start h.duration h.position) (t : F) :
    h.coordAt t = h.position := by
  rw [hh, coordAt_hold]
  rfl

/-- A hold in front of a row does not change its trajectory. -/
theorem Traces.cons_hold {h : Segment F} (ht : Traces path (s :: rest)) (hh : h = .hold h.start h.duration h.position)
    (hd : 0 ≤ h.duration) (hfinish : h.finish = s.start) (hplace : h.position = s.position) :
    Traces path (h :: s :: rest) := by
  have hstands : ∀ x ≤ s.start, path x = h.position := fun x hx => hplace ▸ ht.ahead s rfl x hx
  have hle : h.start ≤ s.start := hfinish ▸ Segment.start_le_finish hd
  constructor
  · rintro first hf x hx
    cases hf
    exact hstands x (hx.trans hle)
  · intro u hu x hlow hupp
    rcases List.mem_cons.1 hu with rfl | hu
    · rw [Segment.still_coordAt hh]
      exact hstands x (hfinish ▸ hupp)
    · exact ht.along u hu x hlow hupp
  · rw [List.getLast?_cons_cons]
    exact ht.behind

/-- What a queue puts in front of a row that begins at the place where the queue ends belongs to the trajectory
of the row. -/
theorem Fills.traces {last? : Option (Segment F)} {front : List (Segment F)} (h : Fills last? s front)
    (hplace : ∀ last ∈ last?, s.position = last.target) (hj : Joined ⟨s.position, s.start⟩ (s :: rest))
    (hu : Unbroken (s :: rest)) (ht : Traces path (s :: rest)) : ∃ first,
      (front ++ s :: rest).head? = some first ∧ first.start ≤ s.start ∧
      (∀ last ∈ last?, s.start = last.finish ∨ last.finish + joinTolerance < s.start → first.start = last.finish) ∧
      Joined ⟨first.position, first.start⟩ (front ++ s :: rest) ∧ Unbroken (front ++ s :: rest) ∧
      Traces path (front ++ s :: rest) := by
  have hfront : ∀ {h : Segment F}, h = .hold h.start h.duration h.position → 0 ≤ h.duration → h.finish = s.start →
      h.position = s.position → h.start ≤ s.start ∧ Joined ⟨h.position, h.start⟩ (h :: s :: rest) ∧
        Unbroken (h :: s :: rest) ∧ Traces path (h :: s :: rest) := by
    intro h hh hd hfinish hpos
    have htarget : h.target = s.position := (Segment.still_coordAt hh _).trans hpos
    refine ⟨hfinish ▸ Segment.start_le_finish hd, ⟨rfl, hd, ?_⟩, .cons_cons htarget.symm hu,
      ht.cons_hold hh hd hfinish hpos⟩
    rwa [htarget, hfinish]
  cases h with
  | @leadIn h _ hl =>
    obtain ⟨hle, hrest⟩ := hfront hl.still (hl.lasts ▸ zero_le_one) hl.finish hl.place
    exact ⟨h, rfl, hle, fun _ hlast => (Option.not_mem_none _ hlast).elim, hrest⟩
  | @gap last h _ hb =>
    obtain ⟨hle, hrest⟩ := hfront hb.still hb.lasts hb.finish (hb.place.trans (hplace last rfl).symm)
    refine ⟨h, rfl, hle, fun _ hlast _ => ?_, hrest⟩
    cases hlast
    exact hb.start
  | @meet last _ hm =>
    refine ⟨s, rfl, le_rfl, fun _ hlast hjoins => ?_, hj, hu, ht⟩
    cases hlast
    exact hjoins.resolve_right fun hgap => absurd (abs_le.1 hm).2 (by linarith)

theorem Fills.phase_eq {last? : Option (Segment F)} {front : List (Segment F)} (h : Fills last? s front) :
    ∀ u ∈ front, u.phase = .hold := by
  have hstill : ∀ {h : Segment F}, h = .hold h.start h.duration h.position → ∀ u ∈ [h], u.phase = .hold := by
    intro h hh u hu
    rw [List.mem_singleton.1 hu, hh]
    rfl
  cases h with
  | leadIn hl => exact hstill hl.still
  | gap hb => exact hstill hb.still
  | meet => exact fun u hu => by cases hu

end Trajectories

/-! ## Queues -/

namespace Queue

/-- The cursors on all but the first `n` segments read the point `p` at the time `x`. -/
def ShowsBehind (q : Queue F) (n : Nat) (x : F) (p : Coord F) : Prop :=
  ∀ i ≥ n, ∀ c ∈ q.cursor? i, c.coordAt (x - c.current.start) = p

variable {q q' : Queue F} {x : F} {first s : Segment F} {path : F → Coord F} {gone row : List (Segment F)}
  {t : Trapezoid F}

theorem Shows.behind {p : Coord F} (h : q.Shows q.size x p) (n : Nat) : q.ShowsBehind n x p := by
  intro i _ c hc
  refine h i ?_ c hc
  simp only [cursor?, Cursor.at?, Option.mem_def] at hc
  split at hc
  · assumption
  · cases hc

/-- In the last part of a row, from its beginning on, its trajectory is read. -/
theorem showsBehind_of_traces (hrow : q.active.toList = gone ++ row) (hf : row.head? = some first)
    (hj : Joined ⟨first.position, first.start⟩ row) (hu : Unbroken row) (ht : Traces path row)
    (hx : first.start ≤ x) : q.ShowsBehind gone.length x (path x) := by
  have hne : row ≠ [] := by rintro rfl; cases hf
  intro i hi c hc
  simp only [cursor?, Cursor.at?, Option.mem_def] at hc
  split at hc
  · cases hc
    have hbehind : Cursor.Behind ⟨q.active, by omega, i, none⟩ gone row := ⟨rfl, hrow, by simpa using hi⟩
    have hst : (Cursor.within ⟨q.active, by omega, i, none⟩ row hne gone.length).Steady
        ⟨first.position, first.start⟩ := ⟨rfl, ⟨first, hf, rfl⟩, hj⟩
    rw [hbehind.coordAt_eq hne hst hx, ← (pathAt_traces hf hj hu).unique ht hf hj]
    exact hst.coordAt_eq (List.append_nil row).symm hne hu fun _ hs => by cases hs
  · cases hc

/-- In a row without gaps or jumps it is read everywhere. -/
theorem shows_of_traces (hc : Contiguous q.active) (hu : Unbroken q.active.toList)
    (hrow : q.active.toList = gone ++ row) (hf : row.head? = some first) (ht : Traces path row)
    (hx : gone = [] ∨ first.start ≤ x) : q.Shows q.size x (path x) := by
  obtain ⟨rest, rfl⟩ := List.head?_eq_some_iff.1 hf
  have hhead : q.active.toList.head? = some (q.active.toList.head (by simp [hrow])) := List.head?_eq_some_head _
  generalize q.active.toList.head _ = front at hhead
  have hj := hc.joined hhead
  have hjrest : Joined ⟨first.position, first.start⟩ (first :: rest) := by
    rw [hrow] at hj
    exact ⟨rfl, hj.of_append.2.2⟩
  have hpath := (pathAt_traces hf hjrest ((hrow ▸ hu).right_of_append)).unique ht hf hjrest
  have hshows := shows_path hj hhead hu x
  rcases hx with rfl | hx
  · rw [List.nil_append] at hrow
    rw [hrow] at hhead hshows
    cases hhead
    rwa [hpath] at hshows
  · rw [hrow] at hj hu hhead hshows
    -- What is in front of the part has ended when it begins.
    have hgone : ∀ u ∈ gone, u.finish ≤ x := by
      intro u hmem
      refine (hj.of_append.1.finish_le_after u hmem).trans ?_
      rwa [← hj.of_append.2.1]
    rwa [pathAt_of_behind hj hu hhead hgone, hpath] at hshows

/-! ### Queued motion -/

theorem lead_fills (h : q.refusal? s = none) : Fills q.active.back? s (q.lead s) := by
  have hadd : q.add s = .ok (q.extend (q.lead s ++ [s])) := by rw [add_eq, h]
  obtain ⟨-, front, hfills, hrow⟩ := add_grows hadd
  simp only [extend, Array.toList_append, List.append_right_inj, List.append_left_inj] at hrow
  rwa [hrow]

/-- Motion that is accepted is queued behind what fills the time up to its start. -/
theorem append_accepted (h : q.append t = (q', none)) : t.segments = [] ∧ q' = q ∨
    ∃ s rest, t.segments = s :: rest ∧ q.refusal? s = none ∧ q' = q.extend (q.lead s ++ t.segments) := by
  rcases append_cases q t with ⟨hnil, happend⟩ | ⟨s, rest, hrow, ⟨e, -, happend⟩ | ⟨hs, happend⟩⟩
  · rw [happend] at h
    cases h
    exact .inl ⟨hnil, rfl⟩
  · rw [happend] at h
    cases h
  · refine .inr ⟨s, rest, hrow, hs, ?_⟩
    have hall : rest.takeWhile Segment.timed = rest := List.takeWhile_eq_self_iff.2 fun u _ => by simp [Segment.timed]
    rw [happend, hall, ← hrow] at h
    exact (Prod.mk.inj h).1.symm

/-- The queue has grown by a row of motion, with holds at most in front of it. -/
structure Gained (q q' : Queue F) (row : List (Segment F)) : Prop where
  grown : ∃ front : List (Segment F), (∀ s ∈ front, s.phase = .hold) ∧
    q'.active.toList = q.active.toList ++ front ++ row
  moves : ∀ s ∈ row, s.phase ≠ .hold
  nonempty : row ≠ []

theorem Gained.finish? (h : q.Gained q' row) {last : Segment F} (hl : row.getLast? = some last) :
    q'.finish? = some last.finish := by
  obtain ⟨front, -, hrow⟩ := h.grown
  rw [Queue.finish?, ← Array.getLast?_toList, hrow, List.getLast?_append, hl]
  rfl

omit [Exact F] in
/-- There are cursors on the motion. -/
theorem Gained.lt_size (h : q.Gained q' row) : q'.size - row.length < q'.size := by
  obtain ⟨front, -, hrow⟩ := h.grown
  have hpos := List.length_pos_iff.2 h.nonempty
  have hsize : q'.size = q.size + front.length + row.length := by
    rw [size, ← Array.length_toList, hrow, List.length_append, List.length_append, Array.length_toList, size]
  omega

theorem append_gained (h : q.append t = (q', none)) (hs : t.segments ≠ []) : q.Gained q' t.segments := by
  rcases append_accepted h with ⟨hnil, -⟩ | ⟨s, rest, -, hok, rfl⟩
  · exact absurd hnil hs
  refine ⟨⟨q.lead s, (lead_fills hok).phase_eq, by simp [extend]⟩, fun u hu => ?_, hs⟩
  have hmem := List.mem_map_of_mem (f := fun s => (s.phase, s.duration)) hu
  rw [t.segments_phases] at hmem
  have hphase := List.mem_of_mem_filter hmem
  simp only [List.mem_cons, Prod.mk.injEq, List.not_mem_nil, or_false] at hphase
  rcases hphase with ⟨hp, -⟩ | ⟨hp, -⟩ | ⟨hp, -⟩ <;> simp [hp]

theorem refusal?_of_endsBy (hends : q.EndsBy ⟨s.position, s.start⟩) (hd : 0 ≤ s.duration) : q.refusal? s = none := by
  have htol := joinTolerance_pos (F := F)
  simp only [refusal?, Segment.timed, Scalar.isFinite_eq, Scalar.zero_literal, not_lt.2 hd, Bool.and_self,
    Bool.not_true, decide_false, Bool.or_self, Bool.false_eq_true, if_false, Option.bind_eq_none_iff]
  intro last hlast
  rw [if_neg]
  have hle : last.finish ≤ s.start := (hends last hlast).2
  linarith

/-- Motion that begins where the queue ended, and not earlier, is accepted. -/
theorem append_of_endsBy (hends : q.EndsBy ⟨t.position, t.start⟩) : (q.append t).2 = none := by
  have htimed : ∀ rest : List (Segment F), rest.find? (!Segment.timed ·) = none :=
    fun rest => List.find?_eq_none.2 fun u _ => by simp [Segment.timed]
  rcases append_cases q t with ⟨-, happend⟩ | ⟨s, rest, hrow, ⟨e, he, happend⟩ | ⟨-, happend⟩⟩
  · rw [happend]
  · have hj := t.segments_joined
    obtain ⟨hstart, hplace⟩ := t.segments_head s (by rw [hrow]; rfl)
    rw [hrow] at hj
    rw [← hstart, ← hplace] at hends
    rw [refusal?_of_endsBy hends hj.2.1] at he
    cases he
  · rw [happend, htimed]
    rfl

/-- From its start on motion that is accepted is read as it is queued by the cursors on it. -/
theorem append_showsBehind (h : q.append t = (q', none)) (hs : t.segments ≠ []) (ht : Traces path t.segments)
    (hx : t.start ≤ x) : q'.ShowsBehind (q'.size - t.segments.length) x (path x) := by
  rcases append_accepted h with ⟨hnil, -⟩ | ⟨s, rest, hrow, -, rfl⟩
  · exact absurd hnil hs
  · have hj := t.segments_joined
    have hu := t.segments_unbroken
    obtain ⟨hstart, hplace⟩ := t.segments_head s (by rw [hrow]; rfl)
    rw [← hplace, ← hstart] at hj
    rw [← hstart] at hx
    have hlist : (q.extend (q.lead s ++ t.segments)).active.toList = (q.active.toList ++ q.lead s) ++ t.segments := by
      simp [extend]
    have hsize : (q.extend (q.lead s ++ t.segments)).size - t.segments.length =
        (q.active.toList ++ q.lead s).length := by
      rw [size, ← Array.length_toList, hlist, List.length_append, Nat.add_sub_cancel]
    rw [hsize]
    exact showsBehind_of_traces hlist (by rw [hrow]; rfl) hj hu ht hx

/-- Motion that carries on where a queue without gaps or jumps ended adds none. -/
theorem append_gapless (hc : Contiguous q.active) (hu : Unbroken q.active.toList)
    (hends : q.EndsBy ⟨t.position, t.start⟩) (hjoins : q.Joins ⟨t.position, t.start⟩) (h : q.append t = (q', none)) :
    Contiguous q'.active ∧ Unbroken q'.active.toList := by
  constructor
  · cases hf : q.active.toList.head? with
    | some first =>
      obtain ⟨q'', b, hall, hplay⟩ := addAll_playing (playing_of_joined (hc.joined hf) hf) t.segments_joined
        fun _ => hjoins
      obtain rfl : q' = q'' := (Prod.mk.inj (h.symm.trans hall)).1
      exact hplay.plays.joined.contiguous
    | none =>
      have hempty : q.active = #[] := by simpa using hf
      have hj := t.segments_joined
      rw [append] at h
      cases hrow : t.segments with
      | nil =>
        rw [hrow] at h
        cases h
        exact hc
      | cons s rest =>
        rw [hrow] at h hj
        obtain ⟨q'', b, hall, hplay⟩ := addAll_empty hempty hj
        obtain rfl : q' = q'' := (Prod.mk.inj (h.symm.trans hall)).1
        exact hplay.plays.joined.contiguous
  · have hunbroken := addAll_unbroken hu t.segments_unbroken fun s hs _ last hl =>
      (t.segments_head s hs).2.trans (hends last hl).1
    rwa [← append, h] at hunbroken

/-- Motion that begins where the queue ended is read from its start on by the cursors that it adds. If it begins
when the queue ends, or late enough for a hold in between, they stand there from the end that the queue had, and
so do all others if the queue is without gaps or jumps. -/
theorem append_shows (hends : q.EndsBy ⟨t.position, t.start⟩) (hs : t.segments ≠ []) (ht : Traces path t.segments)
    (h : q.append t = (q', none)) : (∀ x, t.start ≤ x → q'.ShowsBehind q.size x (path x)) ∧
      (q.Joins ⟨t.position, t.start⟩ → ∀ x, (∀ last ∈ q.active.back?, last.finish ≤ x) →
        q'.ShowsBehind q.size x (path x) ∧
        (Contiguous q.active → Unbroken q.active.toList → q'.Shows q'.size x (path x))) := by
  rcases append_accepted h with ⟨hnil, -⟩ | ⟨s, rest, hrow, hok, hq'⟩
  · exact absurd hnil hs
  obtain ⟨hstart, hplace⟩ := t.segments_head s (by rw [hrow]; rfl)
  have hsj := t.segments_joined
  have hsu := t.segments_unbroken
  rw [← hplace, ← hstart, hrow] at hsj
  rw [hrow] at hsu ht
  obtain ⟨first, hf, hle, hfirst, hj, hu, ht⟩ := (lead_fills hok).traces
    (fun last hl => hplace.trans (hends last hl).1) hsj hsu ht
  have hlist : q'.active.toList = q.active.toList ++ (q.lead s ++ s :: rest) := by simp [hq', hrow, extend]
  refine ⟨fun x hx => showsBehind_of_traces hlist hf hj hu ht (hle.trans (hstart ▸ hx)), fun hjoins x hx => ?_⟩
  -- The motion and the hold in front of it begin when the queue ends, if it is not empty.
  have hbegun : q.active.toList = [] ∨ first.start ≤ x := by
    cases hl : q.active.back? with
    | none => exact .inl (by simpa using hl)
    | some last =>
      rw [hfirst last hl (by rw [hstart]; exact hjoins last hl)]
      exact .inr (hx last hl)
  refine ⟨?_, fun hc hu' => ?_⟩
  · rcases hbegun with hnil | hbegun
    · refine (shows_of_traces ?_ ?_ hlist hf ht (.inl hnil)).behind q.size <;> rw [hnil, List.nil_append] at hlist
      · rw [← hlist] at hj
        exact hj.contiguous
      · rwa [hlist]
    · exact showsBehind_of_traces hlist hf hj hu ht hbegun
  · obtain ⟨hc', hu'⟩ := append_gapless hc hu' hends hjoins h
    exact shows_of_traces hc' hu' hlist hf ht hbegun

end Queue

end PrinterMotion
