/-
Where a cursor stands. Places follow each other without a gap, outside the row too, and a search for a
time ends at the place that contains it: seen from the left if the time lies ahead, and from the right if
it lies behind. So what a gauge reads at a time is what it shows inside the place that is found.
-/
import PrinterMotion.Proofs.Motion.Gauge

namespace PrinterMotion

variable {F : Type} [Exact F]

namespace Cursor

omit [Exact F] in
@[simp] theorem next_index (c : Cursor F) : c.next.index = c.index + 1 := rfl

omit [Exact F] in
@[simp] theorem next_segments (c : Cursor F) : c.next.segments = c.segments := rfl

omit [Exact F] in
@[simp] theorem prev_index (c : Cursor F) : c.prev.index = c.index - 1 := rfl

omit [Exact F] in
@[simp] theorem prev_segments (c : Cursor F) : c.prev.segments = c.segments := rfl

omit [Exact F] in
@[simp] theorem next_prev (c : Cursor F) : c.prev.next = c := by simp [next, prev]

/-- The cursor reads its own row, whose segments meet from `a` on. -/
structure Steady (c : Cursor F) (a : Stand F) : Prop where
  replaced : c.replaced = none
  place : ∃ s, c.segments.toList.head? = some s ∧ s.position = a.place
  joined : Joined a c.segments.toList

/-- The segments of the row in front of the place. -/
def done (c : Cursor F) : List (Segment F) := c.segments.toList.take c.index.toNat

variable {c : Cursor F} {a : Stand F}

namespace Steady

theorem next (h : c.Steady a) : c.next.Steady a := ⟨h.replaced, h.place, h.joined⟩

theorem prev (h : c.Steady a) : c.prev.Steady a := ⟨h.replaced, h.place, h.joined⟩

theorem current_eq (h : c.Steady a) : c.current = c.queued := by
  rw [current, h.replaced]

theorem queued_of_neg (h : c.Steady a) (hi : c.index < 0) : c.queued = .hold (a.time + c.index) 1 a.place := by
  obtain ⟨s, hs, hp⟩ := h.place
  have hsize := c.nonempty
  have hfirst : c.segments[0] = s := by
    rw [List.head?_eq_getElem?, Array.getElem?_toList, Array.getElem?_eq_getElem c.nonempty] at hs
    exact Option.some.inj hs
  have hstart : s.start = a.time := by
    have hj := h.joined
    obtain ⟨rest, hrow⟩ := List.head?_eq_some_iff.1 hs
    rw [hrow] at hj
    exact hj.1
  simp only [queued, if_pos hi, hfirst, hstart, hp]
  simp [holdTime]

theorem queued_of_ge (hi : (c.segments.size : Int) ≤ c.index) :
    c.queued = .hold ((a.after c.segments.toList).time + (c.index - c.segments.size : Int)) 1
      (a.after c.segments.toList).place := by
  have hlast : ∀ {l : List (Segment F)} {s : Segment F}, l.getLast? = some s →
      a.after l = ⟨s.target, s.finish⟩ := by
    intro l s hl
    obtain ⟨l', rfl⟩ := List.getLast?_eq_some_iff.1 hl
    rw [Stand.after_append]
    rfl
  have hsize := c.nonempty
  have hback : c.segments.toList.getLast? = some c.segments[c.segments.size - 1] := by
    rw [Array.getLast?_toList, Array.back?_eq_getElem?, Array.getElem?_eq_getElem (by omega)]
  rw [hlast hback, queued, if_neg (by omega), dif_neg (by omega)]
  simp [holdTime]

/-- A place in the row is behind the segments in front of it. -/
theorem row_eq (h0 : 0 ≤ c.index) (hi : c.index < c.segments.size) :
    c.segments.toList = c.done ++ c.queued :: c.segments.toList.drop (c.index.toNat + 1) := by
  have hlt : c.index.toNat < c.segments.toList.length := by
    rw [Array.length_toList]; omega
  have hq : c.queued = c.segments.toList[c.index.toNat] := by
    rw [queued, if_neg (by omega), dif_pos (by omega)]
    simp
  rw [hq, List.getElem_cons_drop, done, List.take_append_drop]

theorem done_next (h0 : 0 ≤ c.index) (hi : c.index < c.segments.size) : c.next.done = c.done ++ [c.queued] := by
  have hnat : c.next.index.toNat = c.index.toNat + 1 := by rw [next_index]; omega
  have hlen : c.done.length = c.index.toNat := by
    rw [done, List.length_take, Array.length_toList]; omega
  have hrow : c.next.segments.toList = (c.done ++ [c.queued]) ++ c.segments.toList.drop (c.index.toNat + 1) := by
    rw [List.append_assoc]
    exact row_eq h0 hi
  rw [done, hnat, hrow]
  exact List.take_left' (by simp [hlen])

theorem queued_start (h : c.Steady a) (h0 : 0 ≤ c.index) (hi : c.index < c.segments.size) :
    c.queued.start = (a.after c.done).time := by
  have hj := h.joined
  rw [row_eq h0 hi] at hj
  exact hj.of_append.2.1

theorem time_le_start (h : c.Steady a) (h0 : 0 ≤ c.index) (hi : c.index < c.segments.size) :
    a.time ≤ c.queued.start := by
  have hj := h.joined
  rw [row_eq h0 hi] at hj
  rw [h.queued_start h0 hi]
  exact hj.of_append.1.time_le_after

/-- The first place begins where the row does. -/
theorem first_start (h : c.Steady a) (hi : c.index = 0) : c.queued.start = a.time := by
  have hdone : c.done = [] := by rw [done, hi]; rfl
  have hsize := c.nonempty
  rw [h.queued_start hi.ge (by omega), hdone]
  rfl

theorem duration_nonneg (h : c.Steady a) : 0 ≤ c.queued.duration := by
  by_cases h0 : c.index < 0
  · rw [h.queued_of_neg h0]
    exact zero_le_one
  by_cases hi : c.index < c.segments.size
  · refine h.joined.duration_nonneg c.queued ?_
    rw [row_eq (not_lt.1 h0) hi]
    simp
  · rw [queued_of_ge (a := a) (not_lt.1 hi)]
    exact zero_le_one

/-- Each place begins where the one in front of it ends. -/
theorem next_start (h : c.Steady a) : c.next.queued.start = c.queued.finish := by
  have hsize := c.nonempty
  by_cases h0 : c.index < 0
  · -- In front of the row: the next place is a hold as well, or the first segment.
    rw [h.queued_of_neg h0, Segment.finish_hold]
    by_cases h1 : c.next.index < 0
    · rw [h.next.queued_of_neg h1]
      simp only [Segment.hold, next_index]
      push_cast
      ring
    · have hm : c.index = -1 := by simp only [next_index] at h1; omega
      have hnext : c.next.index = 0 := by rw [next_index]; omega
      have hdone : c.next.done = [] := by rw [done, hnext]; rfl
      rw [h.next.queued_start hnext.ge (by rw [hnext]; exact_mod_cast hsize), hm, hdone]
      simp [Stand.after]
  by_cases hi : c.index < c.segments.size
  · -- In the row: the next place is a segment, or the first hold behind the row.
    have hrow := row_eq (not_lt.1 h0) hi
    have hend : (a.after (c.done ++ [c.queued])).time = c.queued.finish := by
      rw [Stand.after_append]
      rfl
    have hdone := done_next (not_lt.1 h0) hi
    by_cases h1 : c.next.index < c.next.segments.size
    · rw [h.next.queued_start (by rw [next_index]; omega) h1, hdone, hend]
    · have hall : c.next.index = c.next.segments.size := by simp only [next_index, next_segments] at h1 ⊢; omega
      have hrest : c.next.segments.toList = c.next.done := by
        rw [done, List.take_of_length_le (by rw [Array.length_toList]; omega)]
      rw [queued_of_ge (a := a) hall.ge, hrest, hdone, hall]
      simp [Segment.hold, hend]
  · rw [queued_of_ge (a := a) (not_lt.1 hi), queued_of_ge (c := c.next) (a := a) (by simp; omega)]
    simp only [Segment.hold, Segment.finish, next_index, next_segments]
    push_cast
    ring

/-- One step back goes over a place of the row, or over a second: then `w` seconds are one less. -/
theorem budget_prev (h : c.Steady a) {start : F} {w fuel : Nat} (hneg : start < 0) (hw : -start ≤ w)
    (hfuel : c.index.toNat + w ≤ fuel + 1) :
    ∃ w' : Nat, -(start + c.prev.queued.duration) ≤ w' ∧ c.prev.index.toNat + w' ≤ fuel := by
  have hd := h.prev.duration_nonneg
  rw [prev_index]
  by_cases hi : 1 ≤ c.index
  · exact ⟨w, by linarith, by omega⟩
  · rw [h.prev.queued_of_neg (by rw [prev_index]; omega)]
    have hpos : w ≠ 0 := by
      rintro rfl
      rw [Nat.cast_zero] at hw
      linarith
    obtain ⟨w', rfl⟩ := Nat.exists_eq_succ_of_ne_zero hpos
    refine ⟨w', ?_, by omega⟩
    push_cast at hw
    simp only [Segment.hold]
    linarith

theorem budget_next (h : c.Steady a) {finish : F} {w fuel : Nat} (hgo : c.queued.duration < finish)
    (hw : finish - c.queued.duration ≤ w) (hfuel : (c.segments.size - (c.index + 1) : Int).toNat + w ≤ fuel + 1) :
    ∃ w' : Nat, finish - c.queued.duration - c.next.queued.duration ≤ w' ∧
      (c.next.segments.size - (c.next.index + 1) : Int).toNat + w' ≤ fuel := by
  have hd := h.next.duration_nonneg
  rw [next_index, next_segments]
  by_cases hi : c.index + 1 < c.segments.size
  · exact ⟨w, by linarith, by omega⟩
  · rw [queued_of_ge (c := c.next) (a := a) (by simp; omega)]
    have hpos : w ≠ 0 := by
      rintro rfl
      rw [Nat.cast_zero] at hw
      linarith
    obtain ⟨w', rfl⟩ := Nat.exists_eq_succ_of_ne_zero hpos
    refine ⟨w', ?_, by omega⟩
    push_cast at hw
    simp only [Segment.hold]
    linarith

/-- What a gauge reads at a time is what it shows inside the place that contains the time. -/
theorem read_eq (h : c.Steady a) (γ : Gauge F) {side : Side} {t : F}
    (hlow : c.index < 0 ∨ ¬ side.Before (c.queued.start + t) c.queued.start)
    (hupp : (c.segments.size : Int) ≤ c.index ∨ side.Before (c.queued.start + t) c.queued.finish) :
    γ.read side a.place c.segments.toList (c.queued.start + t) =
      γ.passed a.place c.done + γ.inside (endPlace a.place c.done) c.queued t := by
  have hnonneg := h.joined.duration_nonneg
  by_cases h0 : c.index < 0
  · have hdone : c.done = [] := by rw [done, Int.toNat_of_nonpos h0.le]; rfl
    have hneg : (c.index : F) ≤ -1 := by exact_mod_cast (by omega : c.index ≤ -1)
    have hx := hupp.resolve_left (by have := c.nonempty; omega)
    rw [hdone, show endPlace a.place [] = a.place from rfl]
    rw [h.queued_of_neg h0] at hx ⊢
    rw [γ.inside_hold, Gauge.read_of_before fun s hs => hx.mono ((?_ : _ ≤ a.time).trans (h.joined.le_start s hs))]
    · exact (zero_add _).symm
    · rw [Segment.finish_hold]
      linarith
  have hlow := hlow.resolve_left h0
  by_cases hi : c.index < c.segments.size
  · have hupp := hupp.resolve_left (not_le.2 hi)
    have hjoin := h.joined
    rw [row_eq (not_lt.1 h0) hi] at hjoin
    have hbehind : ∀ s ∈ c.done, s.finish ≤ c.queued.start := by
      rw [h.queued_start (not_lt.1 h0) hi]
      exact hjoin.of_append.1.finish_le_after
    rw [row_eq (not_lt.1 h0) hi, Gauge.read_append_of_behind fun s hs => ⟨hjoin.of_append.1.duration_nonneg s hs,
      Side.not_before_mono hlow (hbehind s hs)⟩, Gauge.read, if_neg hlow, if_pos hupp, add_sub_cancel_left]
  · have hall : c.done = c.segments.toList := by
      rw [done, List.take_of_length_le (by rw [Array.length_toList]; omega)]
    have hpos : (0 : F) ≤ (c.index - c.segments.size : Int) := by exact_mod_cast (by omega)
    rw [queued_of_ge (a := a) (not_lt.1 hi)] at hlow ⊢
    have hend : ∀ s ∈ c.segments.toList, s.finish ≤ (a.after c.segments.toList).time +
        ((c.index - c.segments.size : Int) : F) :=
      fun s hs => (h.joined.finish_le_after s hs).trans (le_add_of_nonneg_right hpos)
    rw [hall, Stand.after_place, γ.inside_hold]
    exact Gauge.read_of_behind fun s hs => ⟨hnonneg s hs, Side.not_before_mono hlow (hend s hs)⟩

end Steady

/-! ## Looking for a time -/

/-- The cursor stands at the place that contains the time `x`, `t` seconds into it. -/
structure At (c : Cursor F) (a : Stand F) (side : Side) (t x : F) : Prop where
  steady : c.Steady a
  time : c.queued.start + t = x
  low : c.index < 0 ∨ ¬ side.Before x c.queued.start
  upp : (c.segments.size : Int) ≤ c.index ∨ side.Before x c.queued.finish

/-- The cursor stands at a place that contains the time `x`, maybe as an end, `t` seconds into it. -/
structure Within (c : Cursor F) (a : Stand F) (t x : F) : Prop where
  steady : c.Steady a
  time : c.queued.start + t = x
  low : c.index < 0 ∨ 0 ≤ t
  upp : (c.segments.size : Int) ≤ c.index ∨ t ≤ c.queued.duration

theorem At.within {t x : F} (h : c.At a .left t x) : c.Within a t x := by
  refine ⟨h.steady, h.time, h.low.imp_right fun hlow => ?_, h.upp.imp_right fun hupp => ?_⟩
  · rw [Side.before_left, ← h.time] at hlow
    linarith
  · rw [Side.before_left, ← h.time, Segment.finish] at hupp
    linarith

theorem At.read_eq {side : Side} {t x : F} (h : c.At a side t x) (γ : Gauge F) :
    γ.read side a.place c.segments.toList x =
      γ.passed a.place c.done + γ.inside (endPlace a.place c.done) c.queued t := by
  have hread := h.steady.read_eq γ (t := t) (by rw [h.time]; exact h.low) (by rw [h.time]; exact h.upp)
  rwa [h.time] at hread

/-- A time behind the start of the row is not in front of it. -/
theorem At.index_nonneg {side : Side} {t x : F} (h : c.At a side t x) (hx : a.time < x) : 0 ≤ c.index := by
  by_contra hneg
  rw [not_le] at hneg
  have hupp := h.upp.resolve_left (by have := c.nonempty; omega)
  have hindex : (c.index : F) ≤ -1 := by exact_mod_cast (by omega : c.index ≤ -1)
  rw [h.steady.queued_of_neg hneg, Segment.finish_hold] at hupp
  exact Side.not_before_of_lt (by linarith) hupp

/-- Going back from a time that lies before the end of the place. -/
theorem rewind_at {t : F} (h : c.Steady a) (ht : (c.segments.size : Int) ≤ c.index ∨ t < c.queued.duration) :
    (c.rewind t).1.At a .right (c.rewind t).2 (c.queued.start + t) ∧
      (c.rewind t).1.segments = c.segments := by
  -- Along the walk `c.queued.start + t` stays the same, and each place begins before its time ends.
  fun_induction rewind c t with
  | case1 c t hi =>
    refine ⟨⟨h, rfl, .inl hi, ht.imp_right fun ht => ?_⟩, rfl⟩
    exact add_lt_add_right ht _
  | case2 c t hi hneg p ih =>
    have hp : p.Steady a := h.prev
    rw [hp.current_eq] at ih ⊢
    have hstart : p.queued.start + (t + p.queued.duration) = c.queued.start + t := by
      have hnext := hp.next_start
      rw [next_prev] at hnext
      rw [hnext, Segment.finish]
      ring
    rw [← hstart]
    refine ih hp (.inr ?_)
    rw [Scalar.zero_literal] at hneg
    linarith
  | case3 c t hi hneg =>
    rw [Scalar.zero_literal, not_lt] at hneg
    refine ⟨⟨h, rfl, .inr ?_, ht.imp_right fun ht => ?_⟩, rfl⟩
    · exact not_lt.2 (le_add_of_nonneg_right hneg)
    · exact add_lt_add_right ht _

/-- Going ahead from a time that lies behind the start of the place. -/
theorem forward_at {t : F} (h : c.Steady a) (ht : c.index < 0 ∨ 0 < t) :
    (c.forward t).1.At a .left (c.forward t).2 (c.queued.start + t) ∧
      (c.forward t).1.segments = c.segments := by
  fun_induction forward c t with
  | case1 c t hi =>
    refine ⟨⟨h, rfl, ht.imp_right fun ht => ?_, .inl hi⟩, rfl⟩
    exact not_le.2 (lt_add_of_pos_right _ ht)
  | case2 c t hi duration hlt ih =>
    have hdur : duration = c.queued.duration := by rw [← h.current_eq]
    have hstart : c.next.queued.start + (t - duration) = c.queued.start + t := by
      rw [h.next_start, Segment.finish, hdur]
      ring
    rw [← hstart]
    exact ih h.next (.inr (sub_pos.2 hlt))
  | case3 c t hi duration hle =>
    have hdur : duration = c.queued.duration := by rw [← h.current_eq]
    refine ⟨⟨h, rfl, ht.imp_right fun ht => ?_, .inr ?_⟩, rfl⟩
    · exact not_le.2 (lt_add_of_pos_right _ ht)
    · rw [hdur, not_lt] at hle
      exact add_le_add_right hle _

theorem rewind_of_nonneg {t : F} (ht : c.index < 0 ∨ 0 ≤ t) : c.rewind t = (c, t) := by
  rw [rewind]
  split
  · rfl
  · rename_i hi
    rw [Scalar.zero_literal, if_neg (not_lt.2 (ht.resolve_left hi))]

theorem forward_of_le {t : F} (h : c.Steady a) (ht : (c.segments.size : Int) ≤ c.index ∨ t ≤ c.queued.duration) :
    c.forward t = (c, t) := by
  rw [forward]
  split
  · rfl
  · rename_i hi
    simp only [h.current_eq]
    rw [if_neg (not_lt.2 (ht.resolve_left hi))]

/-- Looking for a time ahead. -/
theorem At.seek_ahead {t x o : F} (h : c.At a .left t x) (ho : 0 ≤ o) :
    (c.seek (t + o)).1.At a .left (c.seek (t + o)).2 (x + o) ∧ (c.seek (t + o)).1.segments = c.segments := by
  have hpos : c.index < 0 ∨ 0 < t := by
    refine h.low.imp_right fun hlow => ?_
    rw [Side.before_left, ← h.time] at hlow
    linarith
  have hseek : c.seek (t + o) = c.forward (t + o) := by
    rw [seek, rewind_of_nonneg (hpos.imp_right fun hpos => by linarith)]
  rw [hseek, ← h.time, add_assoc]
  exact forward_at h.steady (hpos.imp_right fun hpos => by linarith)

/-- Looking for a time behind. -/
theorem At.seek_back {t x o : F} (h : c.At a .left t x) (ho : o < 0) :
    (c.seek (t + o)).1.At a .right (c.seek (t + o)).2 (x + o) ∧ (c.seek (t + o)).1.segments = c.segments := by
  have hupp : (c.segments.size : Int) ≤ c.index ∨ t + o < c.queued.duration := by
    refine h.upp.imp_right fun hupp => ?_
    rw [Side.before_left, ← h.time, Segment.finish] at hupp
    linarith
  obtain ⟨hat, hsegs⟩ := rewind_at h.steady hupp
  have hseek : c.seek (t + o) = c.rewind (t + o) := by
    rw [seek]
    refine forward_of_le hat.steady (hat.upp.imp_right fun hupp => ?_)
    rw [Side.before_right, ← hat.time, Segment.finish] at hupp
    linarith
  rw [hseek, ← h.time, add_assoc]
  exact ⟨hat, hsegs⟩

/-- Looking from the first place for a time behind its start. -/
theorem seek_first {t : F} (h : c.Steady a) (hi : c.index = 0) (ht : 0 < t) :
    (c.seek t).1.At a .left (c.seek t).2 (a.time + t) ∧ (c.seek t).1.segments = c.segments := by
  have hseek : c.seek t = c.forward t := by
    rw [seek, rewind_of_nonneg (.inr ht.le)]
  rw [hseek, ← h.first_start hi]
  exact forward_at h (.inr ht)

end Cursor

end PrinterMotion
