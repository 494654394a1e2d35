/-
A queue beside one that has been given the same motion but was never flushed. The flushed queue has
retired motions at its front, and holds in it may be cut differently or go on longer. Both play the same
motions from where the retired ones end, so as long as a model does not look back at retired motions nor
ahead at motions that are still to come, it takes the same positions on both.
-/
import PrinterMotion.Proofs.Kinematics.Sight

namespace PrinterMotion

variable {F : Type} [Exact F]

namespace Queue

/-- The position of a model at a print time, looked for from the first segment of the queue. -/
def positionAt (q : Queue F) (m : Model F) (x : F) : Option F :=
  (q.cursor? 0).map fun c =>
    let (c', t) := c.seek (x - c.current.start)
    m.position c' t

/-- The queue `q` plays what `r` does but for motions that are gone, where `P` says which times no stepper
can look back on any more. If `q` does not stand where they have ended it begins with a motion. -/
inductive Mirrors (P : F → Prop) (q r : Queue F) : Prop where
  | idle (hq : q.active = #[]) (hr : r.active = #[])
  | running {a a' b b' : Stand F} {gone ms : List (Segment F)} (hq : q.Playing a ms b)
      (hr : r.Playing a' (gone ++ ms) b') (hgone : ∀ s ∈ gone, P s.finish) (htime : a'.time ≤ a.time)
      (hplace : a.place = endPlace a'.place gone ∨ P a.time ∧ ∃ s ∈ ms.head?, s.start = a.time)

variable {P P' : F → Prop} {q r : Queue F}

theorem Mirrors.mono (h : q.Mirrors P r) (hP : ∀ t, P t → P' t) : q.Mirrors P' r := by
  cases h with
  | idle hq hr => exact .idle hq hr
  | running hq hr hgone htime hplace =>
    exact .running hq hr (fun s hs => hP _ (hgone s hs)) htime (hplace.imp_right fun ⟨ht, hs⟩ => ⟨hP _ ht, hs⟩)

theorem Playing.steady {a b : Stand F} {ms : List (Segment F)} (h : q.Playing a ms b) {i : Nat} {c : Cursor F}
    (hc : q.cursor? i = some c) :
    c.Steady a ∧ c.segments = q.active ∧ c.index = i ∧ c.index < c.segments.size := by
  unfold cursor? Cursor.at? at hc
  split at hc
  · cases hc
    exact ⟨⟨rfl, h.place, h.plays.joined⟩, rfl, rfl, by simpa⟩
  · cases hc

theorem Playing.first_cursor {a b : Stand F} {ms : List (Segment F)} (h : q.Playing a ms b) :
    ∃ c, q.cursor? 0 = some c ∧ c.Steady a ∧ c.segments = q.active ∧ c.index = 0 ∧ c.current.start = a.time := by
  have hsize : 0 < q.active.size := Array.size_pos_iff.2 h.nonempty
  have hc : q.cursor? 0 = some ⟨q.active, hsize, 0, none⟩ := by simp [cursor?, Cursor.at?, hsize]
  obtain ⟨hst, -, -, -⟩ := h.steady hc
  exact ⟨_, hc, hst, rfl, rfl, by rw [hst.current_eq]; exact hst.first_start rfl⟩

/-- All segments of the queue together end at `time` or later, if there are any. -/
def Reaches (q : Queue F) (time : F) : Prop := ∀ last ∈ q.active.back?, time ≤ last.finish

/-- The queue `w` plays what `r` does, and then more. -/
def Continues (r w : Queue F) (more : List (Segment F)) : Prop :=
  ∀ a ms b, r.Playing a ms b → ∃ b', w.Playing a (ms ++ more) b'

theorem Continues.refl (r : Queue F) : r.Continues r [] := fun a ms b h => ⟨b, by rwa [List.append_nil]⟩

theorem Continues.trans {r w v : Queue F} {more more' : List (Segment F)} (h : r.Continues w more)
    (h' : w.Continues v more') : r.Continues v (more ++ more') := by
  intro a ms b hr
  obtain ⟨b', hw⟩ := h a ms b hr
  obtain ⟨b'', hv⟩ := h' a _ b' hw
  exact ⟨b'', by rwa [List.append_assoc] at hv⟩

theorem addAll_continues {segs : List (Segment F)} {c : Stand F} (hj : Joined c segs)
    (hr : segs ≠ [] → r.Joins c) : r.Continues (r.addAll segs).1 segs := by
  intro a ms b hp
  obtain ⟨r', b', hadd, hr'⟩ := addAll_playing hp hj hr
  exact ⟨b', by rwa [hadd]⟩

theorem Mirrors.active_ne (h : q.Mirrors P r) (hr : r.active ≠ #[]) : q.active ≠ #[] := by
  cases h with
  | idle hqe hre => exact absurd hre hr
  | running hqp => exact hqp.nonempty

/-- Motion that joins both queues is queued in both. -/
theorem Mirrors.addAll (h : q.Mirrors P r) {segs : List (Segment F)} {c : Stand F} (hj : Joined c segs)
    (hq : segs ≠ [] → q.Joins c) (hr : segs ≠ [] → r.Joins c) :
    (q.addAll segs).1.Mirrors P (r.addAll segs).1 := by
  cases h with
  | idle hqe hre =>
    cases segs with
    | nil => exact .idle hqe hre
    | cons s rest =>
      obtain ⟨q', b, hadd, hq'⟩ := addAll_empty hqe hj
      obtain ⟨r', b', hadd', hr'⟩ := addAll_empty hre hj
      rw [hadd, hadd']
      have hall : r'.Playing _ ([] ++ s :: rest) b' := hr'
      exact .running hq' hall (fun _ hs => by cases hs) (le_refl _) (.inl rfl)
  | running hqp hrp hgone htime hplace =>
    obtain ⟨q', b, hadd, hq'⟩ := addAll_playing hqp hj hq
    obtain ⟨r', b', hadd', hr'⟩ := addAll_playing hrp hj hr
    rw [hadd, hadd']
    refine .running hq' (by rwa [List.append_assoc] at hr') hgone htime (hplace.imp_right ?_)
    rintro ⟨ht, s, hs, hstart⟩
    exact ⟨ht, s, by rw [List.head?_append, hs]; rfl, hstart⟩

/-- A hold does not show. -/
theorem Mirrors.holdUntil (h : q.Mirrors P r) (time : F) :
    ∃ q', q.holdUntil time = .ok q' ∧ q'.Mirrors P r ∧ q'.Reaches time := by
  cases h with
  | idle hqe hre =>
    refine ⟨q, holdUntil_empty hqe time, .idle hqe hre, fun last hlast => ?_⟩
    rw [hqe] at hlast
    cases hlast
  | running hqp hrp hgone htime hplace =>
    obtain ⟨q', b, hhold, hq', hb⟩ := holdUntil_playing hqp time
    refine ⟨q', hhold, .running hq' hrp hgone htime hplace, fun last hlast => ?_⟩
    obtain ⟨last', hlast', -, hf⟩ := hq'.back?_eq
    rw [hlast'] at hlast
    cases hlast
    rwa [hf]

/-- Retiring adds motions that end in time to those that are gone. -/
theorem Mirrors.finalize (h : q.Mirrors P r) {time stop : F} (hq : q.Reaches stop) (ht : time < stop)
    (hP : r.active ≠ #[] → ∀ t ≤ time, P t) (clear : F) :
    (q.finalize time clear).Mirrors P r ∧ (q.finalize time clear).Reaches stop := by
  cases h with
  | idle hqe hre =>
    have hempty : (q.finalize time clear).active = #[] := by
      rw [← Array.toList_eq_nil_iff, finalize_active, hqe]
      rfl
    refine ⟨.idle hempty hre, fun last hlast => ?_⟩
    rw [hempty] at hlast
    cases hlast
  | @running a a' b b' gone ms hqp hrp hgone htime hplace =>
    obtain ⟨last, hlast, -, hf⟩ := hqp.back?_eq
    have hb : stop ≤ b.time := by
      rw [← hf]
      exact hq last hlast
    obtain ⟨c, gone', left, rfl, hq', hac, hfin, hstart⟩ := finalize_playing hqp (ht.trans_le hb) clear
    have hpass := hP hrp.nonempty
    rw [← List.append_assoc] at hrp
    refine ⟨.running hq' hrp (fun s hs => ?_) (htime.trans hac) ?_, fun last' hlast' => ?_⟩
    · rcases List.mem_append.1 hs with hs | hs
      · exact hgone s hs
      · exact hpass _ (hfin s hs)
    · rcases hstart with hc | ⟨hc, hs⟩
      · cases gone' with
        | cons s rest =>
          -- The place behind motions does not depend on the one in front of them.
          refine .inl ?_
          rw [hc, endPlace, endPlace, List.foldl_append]
          rfl
        | nil =>
          rw [List.append_nil, hc]
          refine hplace.imp_right ?_
          rintro ⟨hp, s, hs, hsa⟩
          have hca : c.time = a.time := le_antisymm ((hq'.plays.le_start s (List.mem_of_mem_head? hs)).trans_eq hsa) hac
          rw [hca]
          exact ⟨hp, s, hs, hsa⟩
      · exact .inr ⟨hpass _ hc, hs⟩
    · obtain ⟨last'', hlast'', -, hf'⟩ := hq'.back?_eq
      rw [hlast''] at hlast'
      cases hlast'
      rwa [hf']

/-- A position that a model takes on the flushed queue is the one it takes at the same print time on a
queue that was never flushed, also when more motion has been queued there. -/
theorem Mirrors.positionAt_eq (h : q.Mirrors P r) {w : Queue F} {later : List (Segment F)}
    (hw : r.Continues w later) {m : Model F} (hm : m.Sighted) {i : Nat} {c : Cursor F} {t : F}
    (hc : q.cursor? i = some c) (ht : 0 < t) (ht' : t ≤ c.current.duration) (lo hi : F)
    (hP : ∀ t, P t → t ≤ lo) (hlo : lo < c.current.start + t - m.after)
    (hlater : ∀ s ∈ later, hi ≤ s.start) (hhi : c.current.start + t + m.before ≤ hi) :
    w.positionAt m (c.current.start + t) = some (m.position c t) := by
  cases h with
  | idle hq hr =>
    simp [cursor?, Cursor.at?, hq] at hc
  | @running a a' b b' gone ms hq hr hgone htime hplace =>
    obtain ⟨b'', hw⟩ := hw a' (gone ++ ms) b' hr
    obtain ⟨hst, hsegs, hindex, hlt⟩ := hq.steady hc
    have hcur := hst.current_eq
    have hleft : c.At a .left t (c.current.start + t) := by
      rw [hcur] at ht' ⊢
      refine ⟨hst, rfl, .inr ?_, .inr ?_⟩
      · exact not_le.2 (lt_add_of_pos_right _ ht)
      · exact add_le_add_right ht' _
    have hafter : a'.time < c.current.start + t := by
      have hstart := hst.time_le_start (by omega) hlt
      rw [hcur]
      linarith
    obtain ⟨c', hc', hst', hsegs', hindex', hstart'⟩ := hw.first_cursor
    obtain ⟨hright, hrow⟩ := Cursor.seek_first hst' hindex' (sub_pos.2 hafter)
    rw [add_sub_cancel] at hright
    have halike : Alike lo hi a a' q.active.toList w.active.toList := by
      intro γ
      refine ⟨γ.passed a'.place gone + γ.offset a.place (endPlace a'.place gone) ms, fun hstep => ?_,
        fun side x hx hx' => ?_⟩
      · rw [Gauge.passed_of_step_zero hstep, Gauge.offset_of_step_zero hstep, add_zero]
      · refine Gauge.read_eq_of_plays hq.plays hw.plays (hplace.imp_right ?_)
          (fun s hs => (hP _ (hgone s hs)).trans_lt hx) fun s hs => hx'.mono (hlater s hs)
        -- A queue that stands elsewhere begins with a motion, and that has begun by then.
        rintro ⟨hp, s, hs, hsa⟩
        refine ⟨s, hs, Side.not_before_of_lt ?_⟩
        rw [hsa]
        exact (hP _ hp).trans_lt hx
    have htogether : Together lo hi c (c'.seek (c.current.start + t - a'.time)).1 a a' t
        (c'.seek (c.current.start + t - a'.time)).2 (c.current.start + t) := by
      refine ⟨hleft, hright, by omega, hright.index_nonneg hafter, ?_⟩
      rwa [hrow, hsegs', hsegs]
    simp only [positionAt, hc', Option.map_some, hstart']
    rw [hm.position_eq htogether hlo hhi]

end Queue

end PrinterMotion
