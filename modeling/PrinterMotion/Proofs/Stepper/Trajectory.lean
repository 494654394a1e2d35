/-
A stepper along a whole trajectory. Where the model declares no windows, the visits of a flush cover all
motion behind the last flush, and between them the position stands still. So after every flush the
commanded position is within a step length of the model's position at the time that was reached.
-/
import PrinterMotion.Proofs.Stepper.Tracking

namespace PrinterMotion

variable {F : Type} [Exact F]

/-! ## Positions as a function of time -/

/-- `P` is the position of a model along a queue as a function of time: it is read the same from both
sides of every boundary, and stands still before the queue and behind it. -/
structure Kinematics.Follows (k : Kinematics F) (q : Queue F) (P : F → F) : Prop where
  reads : ∀ (i : Nat) (c : Cursor F), q.cursor? i = some c → ∀ t, 0 ≤ t → t ≤ c.current.duration →
    k.position c t = P (c.current.start + t)
  before : ∀ m, q.active[0]? = some m → ∀ t ≤ m.start, P t = P m.start
  after : ∀ finish, q.finish? = some finish → ∀ t, finish ≤ t → P t = P finish

/-- What a trajectory promises to be tracked: segments that meet, a model that looks neither ahead nor
back and stands still where its axes do, and a bound `speed` on its speed. -/
structure Trackable (k : Kinematics F) (q : Queue F) (P : F → F) (speed : F) : Prop where
  contiguous : Contiguous q.active
  follows : k.Follows q P
  before_zero : k.before = 0
  after_zero : k.after = 0
  speed_nonneg : 0 ≤ speed
  still : ∀ (i : Nat) (m : Segment F), q.active[i]? = some m → k.axes.meets m.direction = false →
    ∀ t, m.start ≤ t → t ≤ m.finish → P t = P m.start
  speed_le : ∀ (i : Nat) (m : Segment F), q.active[i]? = some m →
    ∀ t u, m.start ≤ t → t ≤ u → u ≤ m.finish → |P u - P t| ≤ speed * (u - t)

namespace StepTracker

/-- The commanded position is within a step length of `x`, up to the margin that tells a turn. -/
def IsNear (s : StepTracker F) (x : F) : Prop := |s.commanded - x| ≤ s.stepDistance + Search.turnMargin

variable {k : Kinematics F} {q : Queue F} {P : F → F} {speed : F}

/-! ## The search of one segment -/

/-- A search that begins near the position ends near it, and one without a range changes nothing. -/
theorem searchSegment_near (h : Trackable k q P speed) {s s' : StepTracker F} {v : Visit F}
    {steps out : Array (Step F)} {m : Segment F} (hm : q.active[v.segment]? = some m)
    (hd : speed * Search.timeTolerance ≤ s.stepDistance)
    (hnear : s.IsNear (P (v.lower m))) (hs : s.searchSegment k q v steps = (s', .ok out)) :
    s'.stepDistance = s.stepDistance ∧
      (v.lower m < v.upper m ∧ s'.IsNear (P (v.upper m)) ∨ v.upper m ≤ v.lower m ∧ s' = s) := by
  obtain ⟨c, hc, hcur⟩ := Queue.exists_cursor hm
  rw [searchSegment_eq, search?_eq hc hcur] at hs
  by_cases hrange : v.upper m ≤ v.lower m
  · rw [if_pos hrange] at hs
    cases hs
    exact ⟨rfl, .inr ⟨hrange, rfl⟩⟩
  rw [if_neg hrange] at hs
  rw [not_le] at hrange
  have hlow : m.start ≤ v.lower m := le_max_right _ _
  have hupp : v.upper m ≤ m.finish := min_le_right _ _
  have hread : ∀ t, 0 ≤ t → t ≤ v.upper m - m.start → k.position c t = P (m.start + t) := by
    intro t h0 h1
    have hdur : t ≤ m.duration := by unfold Segment.finish at hupp; linarith
    have := h.follows.reads v.segment c hc t h0 (hcur ▸ hdur)
    rwa [hcur] at this
  have hclose : ∀ x y, v.lower m - m.start ≤ x → x ≤ y → y ≤ v.upper m - m.start →
      y - x ≤ Search.timeTolerance → |k.position c y - k.position c x| ≤ s.stepDistance := by
    intro x y h1 h2 h3 h4
    rw [hread x (by linarith) (by linarith), hread y (by linarith) h3]
    have hP := h.speed_le v.segment m hm (m.start + x) (m.start + y) (by linarith) (by linarith) (by linarith)
    have hmul : speed * (m.start + y - (m.start + x)) ≤ speed * Search.timeTolerance :=
      mul_le_mul_of_nonneg_left (by linarith) h.speed_nonneg
    linarith
  have hd0 : 0 ≤ s.stepDistance := (mul_nonneg h.speed_nonneg Search.timeTolerance_pos.le).trans hd
  simp only [settle] at hs
  split at hs
  · cases hs
  rename_i search hout
  cases hs
  refine ⟨rfl, .inl ⟨hrange, ?_⟩⟩
  have hbegin : |k.position c (v.lower m - m.start) - s.commanded| ≤ s.stepDistance + Search.turnMargin := by
    rw [hread _ (by linarith) (by linarith), add_sub_cancel, abs_sub_comm]; exact hnear
  have hend := Search.run_tracks (Search.evaluates_position k c m.start) hd0 hclose
    (sub_lt_sub_right hrange m.start) hbegin hout
  rw [hread _ (by linarith) (le_refl _), add_sub_cancel, abs_sub_comm] at hend
  exact hend

/-! ## The visits of a flush -/

theorem IsNear.noted {s : StepTracker F} {x : F} (h : s.IsNear x) (v : Visit F) : (s.noted v).IsNear x := by
  obtain ⟨h1, h2⟩ := s.noted_commanded v
  unfold IsNear
  rw [h1, h2]
  exact h

/-- Where the plan stands at a segment: the segment ends behind the last flush, and it is the first one
or begins before the end of the flush. -/
structure Standing (q : Queue F) (flushed time : F) (i : Nat) (m : Segment F) : Prop where
  segment : q.active[i]? = some m
  flushed_lt : flushed < m.finish
  reached : i = 0 ∨ m.start < time

theorem Standing.next (h : Trackable k q P speed) {flushed time : F} {i n : Nat} {m last : Segment F}
    (hm : Standing q flushed time i m) (hin : i ≤ n) (hlast : q.active[n]? = some last)
    (htime : time ≤ last.finish) (hlt : m.finish < time) :
    ∃ m', Standing q flushed time (i + 1) m' ∧ i + 1 ≤ n ∧ max flushed m'.start = m.finish := by
  have hne : i ≠ n := by
    rintro rfl
    rw [hm.segment] at hlast
    cases hlast
    exact absurd htime (not_le.2 hlt)
  obtain ⟨m', hm'⟩ := Contiguous.exists_of_le hlast (by omega : i + 1 ≤ n)
  have hstart := h.contiguous.meets i m m' hm.segment hm'
  refine ⟨m', ⟨hm', ?_, .inr (hstart ▸ hlt)⟩, by omega, ?_⟩
  · exact hm.flushed_lt.trans_le (hstart.symm.le.trans (h.contiguous.start_le_finish hm'))
  · rw [hstart, max_eq_right hm.flushed_lt.le]

/-- In front of the first segment the position is the one that it starts at. -/
theorem Standing.eq_start (h : Trackable k q P speed) {flushed time : F} {i : Nat} {m : Segment F}
    (hm : Standing q flushed time i m) (hle : time ≤ m.start) : P time = P m.start := by
  rcases hm.reached with rfl | hlt
  · exact h.follows.before m hm.segment time hle
  · exact absurd hle (not_le.2 hlt)

theorem Standing.span (h : Trackable k q P speed) {flushed time : F} {i : Nat} {m : Segment F}
    (hm : Standing q flushed time i m) : m.start ≤ max flushed m.start ∧ max flushed m.start ≤ m.finish :=
  ⟨le_max_right _ _, max_le hm.flushed_lt.le (h.contiguous.start_le_finish hm.segment)⟩

/-- Searching a segment from the last flush on leads to near the position where it ends, or the flush. -/
theorem Standing.searched (h : Trackable k q P speed) {flushed time : F} (hft : flushed < time) {i : Nat}
    {m : Segment F} (hm : Standing q flushed time i m) {s s₁ : StepTracker F} {steps steps₁ : Array (Step F)}
    {activeUntil : Option F} (hd : speed * Search.timeTolerance ≤ s.stepDistance)
    (hnear : s.IsNear (P (max flushed m.start)))
    (hs : s.searchSegment k q ⟨i, flushed, time, activeUntil⟩ steps = (s₁, .ok steps₁)) :
    s₁.stepDistance = s.stepDistance ∧ s₁.IsNear (P (min time m.finish)) := by
  obtain ⟨hdist, ⟨-, hnear₁⟩ | ⟨hle, rfl⟩⟩ := searchSegment_near h
    (v := ⟨i, flushed, time, activeUntil⟩) hm.segment hd hnear hs
  · exact ⟨hdist, hnear₁⟩
  refine ⟨rfl, ?_⟩
  -- An empty search: the segment ends where it would begin, or the flush ends in front of all motion.
  have hle' : min time m.finish ≤ max flushed m.start := hle
  rcases le_total m.finish time with hend | hend
  · rw [min_eq_right hend] at hle' ⊢
    rwa [le_antisymm (hm.span h).2 hle'] at hnear
  · rw [min_eq_left hend] at hle' ⊢
    have hstart : time ≤ m.start := (le_max_iff.1 hle').resolve_left (not_le.2 hft)
    rw [hm.eq_start h hstart]
    rwa [max_eq_right (hft.le.trans hstart)] at hnear

/-- Searching a segment in which the position stands still changes nothing. -/
theorem Standing.trailed (h : Trackable k q P speed) {flushed time stop : F} {i : Nat} {m : Segment F}
    (hm : Standing q flushed time i m) (hstill : ∀ t, m.start ≤ t → t ≤ m.finish → P t = P m.start)
    {s s₁ : StepTracker F} {steps steps₁ : Array (Step F)} (hd : speed * Search.timeTolerance ≤ s.stepDistance)
    (hnear : s.IsNear (P (max flushed m.start)))
    (hs : s.searchSegment k q ⟨i, flushed, stop, none⟩ steps = (s₁, .ok steps₁)) :
    s₁.stepDistance = s.stepDistance ∧ s₁.IsNear (P m.start) := by
  have hspan := hm.span h
  obtain ⟨hdist, ⟨hlt, hnear₁⟩ | ⟨-, rfl⟩⟩ := searchSegment_near h
    (v := ⟨i, flushed, stop, none⟩) hm.segment hd hnear hs
  · rw [hstill _ (hspan.1.trans hlt.le) (min_le_right _ _)] at hnear₁
    exact ⟨hdist, hnear₁⟩
  · rw [hstill _ hspan.1 hspan.2] at hnear
    exact ⟨rfl, hnear⟩

/-- The plan of a flush leads from near the position at its next segment to near the position at its
end. -/
theorem plan_near (h : Trackable k q P speed) {flushed time : F} (hft : flushed < time)
    {last : Segment F} {n : Nat} (hlast : q.active[n]? = some last) (htime : time ≤ last.finish) :
    ∀ (rest : List (Segment F)) (i : Nat) (forced : F) (skipped : Nat) (s s' : StepTracker F)
      (steps out : Array (Step F)) (m : Segment F),
      rest = q.active.toList.drop i → Standing q flushed time i m → i ≤ n →
      speed * Search.timeTolerance ≤ s.stepDistance → s.IsNear (P (max flushed m.start)) →
      runVisits k q (Visit.plan ⟨k.axes, 0, k.after, flushed, time⟩ q.active rest i forced skipped) s
        steps = (s', .ok out) → s'.stepDistance = s.stepDistance ∧ s'.IsNear (P time)
  | [], i, _, _, _, _, _, _, m, hrest, hm, _, _, _, _ => by
    have hlen := (Array.getElem?_eq_some_iff.1 hm.segment).1
    have := congrArg List.length hrest
    simp only [List.length_nil, List.length_drop, Array.length_toList] at this
    omega
  | m₀ :: rest, i, forced, skipped, s, s', steps, out, m, hrest, hm, hin, hd, hnear, hrun => by
    obtain ⟨hfirst, hrest'⟩ := Visit.drop_eq_cons hrest
    obtain rfl : m₀ = m := Option.some.inj (hfirst.symm.trans hm.segment)
    -- What is left to do once the end of this segment is reached.
    have onwards : ∀ (forced : F) (skipped : Nat) (s₁ : StepTracker F) (steps₁ : Array (Step F)),
        m₀.finish < time → s₁.stepDistance = s.stepDistance → s₁.IsNear (P m₀.finish) →
        runVisits k q (Visit.plan ⟨k.axes, 0, k.after, flushed, time⟩ q.active rest (i + 1) forced skipped) s₁
          steps₁ = (s', .ok out) → s'.stepDistance = s.stepDistance ∧ s'.IsNear (P time) := by
      intro forced skipped s₁ steps₁ hend hdist hnear₁ hrun
      obtain ⟨m', hm', hin', hmax⟩ := hm.next h hin hlast htime hend
      obtain ⟨h1, h2⟩ := plan_near h hft hlast htime rest (i + 1) forced skipped s₁ s' steps₁ out m' hrest' hm'
        hin' (by rw [hdist]; exact hd) (by rw [hmax]; exact hnear₁) hrun
      exact ⟨h1.trans hdist, h2⟩
    unfold Visit.plan at hrun
    simp only [Scalar.zero_literal, Scalar.min_eq, lt_irrefl, and_false, if_false,
      List.nil_append, add_zero] at hrun
    split at hrun
    · -- The segment is searched from the last flush on, as far as it goes.
      split at hrun
      · rename_i hend
        obtain ⟨s₁, steps₁, hs, hrun⟩ := runVisits_cons_ok hrun
        cases hrun
        obtain ⟨hdist, hnear₁⟩ := hm.searched h hft hd hnear hs
        rw [min_eq_left hend] at hnear₁
        exact ⟨(noted_commanded s₁ _).2.trans hdist, hnear₁.noted _⟩
      · rename_i hend
        rw [not_le] at hend
        obtain ⟨s₁, steps₁, hs, hrun⟩ := runVisits_cons_ok hrun
        obtain ⟨hdist, hnear₁⟩ := hm.searched h hft hd hnear hs
        rw [min_eq_right hend.le] at hnear₁
        exact onwards _ 0 _ steps₁ hend ((noted_commanded s₁ _).2.trans hdist) (hnear₁.noted _) hrun
    · -- The position stands still, and a trailing search changes nothing.
      rename_i hidle
      have hstill := h.still i m₀ hm.segment (by simpa using hidle)
      have hstop : ∀ (skipped : Nat) (s₁ : StepTracker F) (steps₁ : Array (Step F)),
          s₁.stepDistance = s.stepDistance → s₁.IsNear (P m₀.start) →
          runVisits k q (if time ≤ m₀.finish then [] else
            Visit.plan ⟨k.axes, 0, k.after, flushed, time⟩ q.active rest (i + 1) forced skipped) s₁
            steps₁ = (s', .ok out) → s'.stepDistance = s.stepDistance ∧ s'.IsNear (P time) := by
        intro skipped s₁ steps₁ hdist hnear₁ hrun
        split at hrun
        · rename_i hend
          cases hrun
          refine ⟨hdist, ?_⟩
          rcases le_total time m₀.start with hle | hle
          · rwa [hm.eq_start h hle]
          · rwa [hstill time hle hend]
        · rename_i hend
          refine onwards forced skipped s₁ steps₁ (not_le.1 hend) hdist ?_ hrun
          rwa [hstill _ (h.contiguous.start_le_finish hm.segment) (le_refl _)]
      by_cases htrails : m₀.start < forced
      · have hsplit : runVisits k q (⟨i, flushed, min forced time, none⟩ :: if time ≤ m₀.finish then [] else
            Visit.plan ⟨k.axes, 0, k.after, flushed, time⟩ q.active rest (i + 1) forced 1) s steps =
              (s', .ok out) := by
          rw [← hrun]
          simp only [htrails, if_true]
          split <;> rfl
        obtain ⟨s₁, steps₁, hs, hrun⟩ := runVisits_cons_ok hsplit
        obtain ⟨hdist, hnear₁⟩ := hm.trailed h hstill hd hnear hs
        exact hstop 1 s₁ steps₁ hdist hnear₁ hrun
      · have hspan := hm.span h
        rw [hstill _ hspan.1 hspan.2] at hnear
        refine hstop (skipped + 1) s steps rfl hnear ?_
        rw [← hrun]
        simp only [htrails, if_false, List.nil_append]

/-! ## One flush -/

theorem exists_last {q : Queue F} {finish : F} (h : q.finish? = some finish) :
    ∃ last, q.active[q.active.size - 1]? = some last ∧ last.finish = finish := by
  rw [Queue.finish?, Array.back?_eq_getElem?] at h
  exact Option.map_eq_some_iff.1 h

/-- The first segment in progress behind a time begins before it, unless it is the first of all. -/
theorem exists_firstAfter (hq : Contiguous q.active) {flushed finish : F} (hlt : flushed < finish)
    (hfin : q.finish? = some finish) :
    ∃ i m, q.firstAfter? flushed = some i ∧ q.active[i]? = some m ∧ flushed < m.finish ∧
      (i = 0 ∨ m.start ≤ flushed) := by
  cases hfirst : q.firstAfter? flushed with
  | none =>
    obtain ⟨last, hlast, rfl⟩ := exists_last hfin
    rw [Queue.firstAfter?, Array.findIdx?_eq_none_iff] at hfirst
    have := hfirst last (Array.mem_of_getElem? hlast)
    rw [decide_eq_false_iff_not] at this
    exact absurd hlt this
  | some i =>
    rw [Queue.firstAfter?, Array.findIdx?_eq_some_iff_getElem] at hfirst
    obtain ⟨hi, hp, hbefore⟩ := hfirst
    have hm : q.active[i]? = some q.active[i] := Array.getElem?_eq_getElem hi
    refine ⟨i, q.active[i], rfl, hm, by simpa using hp, ?_⟩
    rcases Nat.eq_zero_or_pos i with h0 | h0
    · exact .inl h0
    · right
      have hprev : q.active[i - 1]? = some q.active[i - 1] := Array.getElem?_eq_getElem (by omega)
      have := hbefore (i - 1) (by omega)
      rw [decide_eq_true_eq, not_lt] at this
      rw [hq.meets (i - 1) _ _ hprev (by rw [Nat.sub_add_cancel h0]; exact hm)]
      exact this

/-- A call that succeeds keeps the commanded position near the model's position at the last flush. -/
theorem advance_near (h : Trackable k q P speed) {s s' : StepTracker F} {time : F}
    {steps : Array (Step F)} (hd : speed * Search.timeTolerance ≤ s.stepDistance)
    (hnear : s.IsNear (P s.flushed)) (hs : s.advance k (some q) time = (s', .ok steps)) :
    s'.flushed = max s.flushed time ∧ s'.stepDistance = s.stepDistance ∧ s'.IsNear (P s'.flushed) := by
  rcases advance_cases s k (some q) time with
    ⟨⟨answer, ha, hcase⟩, -⟩ | ⟨q', finish, hq, hfin, hlt, hle, hrun, -⟩
  · rw [ha] at hs
    rcases hcase with ⟨-, hle⟩ | ⟨finish, rfl⟩ <;> cases hs
    exact ⟨(max_eq_left hle).symm, rfl, hnear⟩
  cases hq
  rw [hrun] at hs
  have hflushed : s'.flushed = time := by
    have := runVisits_flushed k q (s.visits k q time) { s with flushed := time } #[]
    rwa [hs] at this
  obtain ⟨last, hlast, rfl⟩ := exists_last hfin
  obtain ⟨i, m, hfirst, hm, hfinish, hbegun⟩ := exists_firstAfter h.contiguous (hlt.trans_le hle) hfin
  have hin : i ≤ q.active.size - 1 := by
    have := (Array.getElem?_eq_some_iff.1 hm).1
    omega
  have hstart : P (max s.flushed m.start) = P s.flushed := by
    rcases le_total m.start s.flushed with hge | hge
    · rw [max_eq_left hge]
    · rw [max_eq_right hge]
      rcases hbegun with rfl | hle
      · exact (h.follows.before m hm s.flushed hge).symm
      · rw [le_antisymm hle hge]
  simp only [visits, hfirst, h.before_zero] at hs
  have hnear' : IsNear { s with flushed := time } (P (max s.flushed m.start)) := by rw [hstart]; exact hnear
  obtain ⟨h1, h2⟩ := plan_near h hlt hlast hle _ i _ 0 { s with flushed := time } s' #[] steps m rfl
    ⟨hm, hfinish, hbegun.imp_right fun hle => hle.trans_lt hlt⟩ hin hd hnear' hs
  rw [hflushed, max_eq_right hlt.le]
  exact ⟨rfl, h1, h2⟩

/-! ## Runs of flushes -/

/-- Flushes at the given times, as long as all of them succeed. -/
def advanceAll (k : Kinematics F) (q : Queue F) : List F → StepTracker F → Option (StepTracker F)
  | [], s => some s
  | t :: ts, s =>
    match s.advance k (some q) t with
    | (s', .ok _) => advanceAll k q ts s'
    | (_, .error _) => none

theorem advanceAll_near (h : Trackable k q P speed) : ∀ (times : List F) {s s' : StepTracker F},
    speed * Search.timeTolerance ≤ s.stepDistance → s.IsNear (P s.flushed) →
    advanceAll k q times s = some s' →
      s'.flushed = times.foldl max s.flushed ∧ s'.stepDistance = s.stepDistance ∧ s'.IsNear (P s'.flushed)
  | [], s, s', _, hnear, hs => by cases hs; exact ⟨rfl, rfl, hnear⟩
  | t :: ts, s, s', hd, hnear, hs => by
    rw [advanceAll] at hs
    obtain ⟨s₁, answer, ha⟩ : ∃ s₁ answer, s.advance k (some q) t = (s₁, answer) := ⟨_, _, rfl⟩
    rw [ha] at hs
    cases answer with
    | error e => cases hs
    | ok steps =>
      obtain ⟨h1, h2, h3⟩ := advance_near h hd hnear ha
      obtain ⟨h4, h5, h6⟩ := advanceAll_near h ts (by rw [h2]; exact hd) h3 hs
      exact ⟨by rw [h4, h1, List.foldl_cons], h5.trans h2, h6⟩

/-- Until the motion begins, the position is the one that the queue starts at. -/
theorem eq_start_of_no_motion (h : Trackable k q P speed) {flushed : F} {first : Segment F}
    (hfirst : q.active[0]? = some first)
    (hmotion : ∀ (i : Nat) (m : Segment F), q.active[i]? = some m → k.axes.meets m.direction = true →
      flushed ≤ m.start) : P flushed = P first.start := by
  -- a segment that has begun is over for the position: it is still, or takes no time before `flushed`
  have within : ∀ (i : Nat) (m : Segment F), q.active[i]? = some m → ∀ t, m.start ≤ t → t ≤ m.finish →
      t ≤ flushed → P t = P m.start := by
    intro i m hm t h1 h2 h3
    cases hidle : k.axes.meets m.direction with
    | false => exact h.still i m hm hidle t h1 h2
    | true => rw [le_antisymm (h3.trans (hmotion i m hm hidle)) h1]
  have begun : ∀ (i : Nat) (m : Segment F), q.active[i]? = some m → m.start ≤ flushed →
      P m.start = P first.start := by
    intro i
    induction i with
    | zero => intro m hm _; rw [hfirst] at hm; cases hm; rfl
    | succ i ih =>
      intro m hm hle
      obtain ⟨m', hm'⟩ := Contiguous.exists_of_le hm (Nat.le_succ i)
      have hmeet := h.contiguous.meets i m' m hm' hm
      have hspan := h.contiguous.start_le_finish hm'
      rw [hmeet] at hle ⊢
      rw [within i m' hm' m'.finish hspan (le_refl _) hle]
      exact ih m' hm' (hspan.trans hle)
  rcases le_total flushed first.start with hle | hle
  · exact h.follows.before first hfirst flushed hle
  have hsize : 0 < q.active.size := (Array.getElem?_eq_some_iff.1 hfirst).1
  have hlast : q.active[q.active.size - 1]? = some q.active[q.active.size - 1] :=
    Array.getElem?_eq_getElem (by omega)
  have hfin : q.finish? = some q.active[q.active.size - 1].finish := by
    rw [Queue.finish?, Array.back?_eq_getElem?, hlast, Option.map_some]
  rcases le_or_gt q.active[q.active.size - 1].finish flushed with hover | hin
  · have hspan := h.contiguous.start_le_finish hlast
    rw [h.follows.after _ hfin flushed hover, within _ _ hlast _ hspan (le_refl _) hover]
    exact begun _ _ hlast (hspan.trans hover)
  · obtain ⟨i, m, -, hm, hlt, hbegun⟩ := exists_firstAfter h.contiguous hin hfin
    have hstart : m.start ≤ flushed := by
      rcases hbegun with rfl | hle'
      · rw [hfirst] at hm; cases hm; exact hle
      · exact hle'
    rw [within i m hm flushed hstart hlt.le (le_refl _)]
    exact begun i m hm hstart

/-- Take a trajectory without motion before the last flush, and a stepper that stands within a step
length of where the trajectory starts. After flushes that all succeed, the commanded position is within a
step length of the model's position at the time that has been reached, which is the latest of all. -/
theorem commanded_tracks (h : Trackable k q P speed) {s s' : StepTracker F} {first : Segment F}
    (hfirst : q.active[0]? = some first)
    (hmotion : ∀ (i : Nat) (m : Segment F), q.active[i]? = some m → k.axes.meets m.direction = true →
      s.flushed ≤ m.start)
    (hspeed : speed * 0.000000001 ≤ s.stepDistance)
    (hstart : |s.commanded - P first.start| ≤ s.stepDistance + 0.00000001)
    (times : List F) (hrun : advanceAll k q times s = some s') :
    s'.flushed = times.foldl max s.flushed ∧
      |s'.commanded - P s'.flushed| ≤ s.stepDistance + 0.00000001 := by
  have hnear : s.IsNear (P s.flushed) := by
    rw [eq_start_of_no_motion h hfirst hmotion]
    exact hstart
  obtain ⟨h1, h2, h3⟩ := advanceAll_near h times hspeed hnear hrun
  refine ⟨h1, ?_⟩
  rw [← h2]
  exact h3

/-! ## A cruise -/

/-- One second of rest, and one second of motion along the first axis at speed 10. -/
def cruise : Queue ℚ :=
  ⟨#[.hold 0 1 .origin, ⟨1, 1, 10, 0, .origin, ⟨1, 0, 0⟩, .cruise⟩], [], none⟩

/-- The position along the cruise. -/
def cruisePosition (t : ℚ) : ℚ := 10 * max 0 (min 1 (t - 1))

/-- A stepper of step length 2 at rest in the origin. -/
def atRest : StepTracker ℚ := ⟨2, 0, 0, 0, none, false⟩

theorem cruise_cases {i : Nat} {m : Segment ℚ} (h : cruise.active[i]? = some m) :
    i = 0 ∧ m = .hold 0 1 .origin ∨ i = 1 ∧ m = ⟨1, 1, 10, 0, .origin, ⟨1, 0, 0⟩, .cruise⟩ := by
  match i with
  | 0 => cases h; exact .inl ⟨rfl, rfl⟩
  | 1 => cases h; exact .inr ⟨rfl, rfl⟩
  | i + 2 => cases h

theorem cruisePosition_of_le {t : ℚ} (h : t ≤ 1) : cruisePosition t = 0 := by
  rw [cruisePosition, min_eq_right (by linarith), max_eq_left (by linarith), mul_zero]

theorem cruisePosition_of_mem {t : ℚ} (h : 1 ≤ t) (h' : t ≤ 2) : cruisePosition t = 10 * (t - 1) := by
  rw [cruisePosition, min_eq_right (by linarith), max_eq_right (by linarith)]

theorem cruisePosition_of_ge {t : ℚ} (h : 2 ≤ t) : cruisePosition t = 10 := by
  rw [cruisePosition, min_eq_left (by linarith), max_eq_right (by norm_num), mul_one]

theorem cruise_trackable : Trackable (Model.linear .x).kinematics cruise cruisePosition 10 where
  contiguous := by
    refine ⟨fun i m h => ?_, fun i m n hm hn => ?_⟩
    · rcases cruise_cases h with ⟨-, rfl⟩ | ⟨-, rfl⟩ <;> norm_num [Segment.hold]
    · rcases cruise_cases hm with ⟨rfl, rfl⟩ | ⟨rfl, rfl⟩ <;> rcases cruise_cases hn with ⟨h, rfl⟩ | ⟨h, rfl⟩ <;>
        first | omega | norm_num [Segment.hold, Segment.finish]
  follows := by
    refine ⟨fun i c hc t h0 h1 => ?_, fun m hm t ht => ?_, fun finish hf t ht => ?_⟩
    · obtain ⟨m, hm, hcur⟩ := Queue.cursor?_eq_some hc
      show c.current.axisAt .x t = _
      rw [hcur] at h1 ⊢
      rcases cruise_cases hm with ⟨-, rfl⟩ | ⟨-, rfl⟩
      · have ht : t ≤ 1 := h1
        have hzero : (Segment.hold 0 1 .origin : Segment ℚ).start + t = t := zero_add t
        rw [hzero, cruisePosition_of_le ht]
        simp [Segment.hold, Segment.axisAt, Segment.distanceAt, Coord.get, Coord.origin]
      · have ht : t ≤ 1 := h1
        have hpos : cruisePosition (1 + t) = 10 * (1 + t - 1) :=
          cruisePosition_of_mem (by linarith) (by linarith)
        simp only [Segment.axisAt, Segment.distanceAt, Coord.get, Coord.origin, hpos, Scalar.zero_literal]
        ring
    · rcases cruise_cases hm with ⟨-, rfl⟩ | ⟨h, -⟩
      · have ht' : t ≤ 0 := ht
        show cruisePosition t = cruisePosition 0
        rw [cruisePosition_of_le (by linarith), cruisePosition_of_le (by norm_num)]
      · omega
    · have hfin : cruise.finish? = some 2 := by decide +kernel
      rw [hfin] at hf
      cases hf
      rw [cruisePosition_of_ge ht, cruisePosition_of_ge (le_refl _)]
  before_zero := Scalar.zero_literal
  after_zero := Scalar.zero_literal
  speed_nonneg := by norm_num
  still := by
    intro i m hm hidle t h1 h2
    rcases cruise_cases hm with ⟨-, rfl⟩ | ⟨-, rfl⟩
    · have h2' : t ≤ 1 := by simpa [Segment.hold, Segment.finish] using h2
      show cruisePosition t = cruisePosition 0
      rw [cruisePosition_of_le h2', cruisePosition_of_le (by norm_num)]
    · exact absurd hidle (by decide +kernel)
  speed_le := by
    intro i m hm t u h1 h2 h3
    have hmono : min (1 : ℚ) (t - 1) ≤ min 1 (u - 1) := min_le_min_left 1 (by linarith)
    have hgrow : min (1 : ℚ) (u - 1) ≤ min 1 (t - 1) + (u - t) := by
      rcases le_total 1 (t - 1) with h | h
      · rw [min_eq_left h]; linarith [min_le_left (1 : ℚ) (u - 1)]
      · rw [min_eq_right h]; linarith [min_le_right (1 : ℚ) (u - 1)]
    have hpos : max 0 (min (1 : ℚ) (u - 1)) ≤ max 0 (min 1 (t - 1)) + (u - t) := by
      refine max_le (by linarith [le_max_left 0 (min (1 : ℚ) (t - 1))]) (hgrow.trans ?_)
      linarith [le_max_right 0 (min (1 : ℚ) (t - 1))]
    have hle : max 0 (min (1 : ℚ) (t - 1)) ≤ max 0 (min 1 (u - 1)) := max_le_max_left 0 hmono
    unfold cruisePosition
    rw [abs_of_nonneg (by linarith)]
    linarith

theorem cruise_run : ∃ s, advanceAll (Model.linear .x).kinematics cruise [2, 3 / 2] atRest = some s ∧
    s.commanded = 10 ∧ s.flushed = 2 := by
  have h : (advanceAll (Model.linear .x).kinematics cruise [2, 3 / 2] atRest).map
      (fun s => (s.commanded, s.flushed)) = some (10, 2) := by decide +kernel
  obtain ⟨s, hs, hpair⟩ := Option.map_eq_some_iff.1 h
  exact ⟨s, hs, congrArg Prod.fst hpair, congrArg Prod.snd hpair⟩

/-- The tracker follows the cruise to its end. -/
theorem commanded_tracks_cruise : ∃ s, advanceAll (Model.linear .x).kinematics cruise [2, 3 / 2] atRest = some s ∧
    s.flushed = 2 ∧ |s.commanded - cruisePosition 2| ≤ 2 + 0.00000001 := by
  obtain ⟨s, hs, -, hflushed⟩ := cruise_run
  have hfirst : cruise.active[0]? = some (.hold 0 1 .origin) := rfl
  have h := commanded_tracks cruise_trackable hfirst
    (fun i m hm hmoves => by
      rcases cruise_cases hm with ⟨-, rfl⟩ | ⟨-, rfl⟩ <;> norm_num [atRest, Segment.hold])
    (by norm_num [atRest]) (by norm_num [atRest, Segment.hold, cruisePosition]) [2, 3 / 2] hs
  rw [hflushed] at h
  exact ⟨s, hs, hflushed, h.2⟩

/-- A flush to an earlier time than the last one succeeds and takes nothing back, so behind it the commanded
position is not the model's position at the time of that flush. -/
theorem not_tracks_earlier_time : ¬ ∀ (k : Kinematics ℚ) (q : Queue ℚ) (P : ℚ → ℚ) (speed : ℚ)
    (s s' : StepTracker ℚ) (first : Segment ℚ) (times : List ℚ) (time : ℚ), Trackable k q P speed →
    q.active[0]? = some first →
    (∀ (i : Nat) (m : Segment ℚ), q.active[i]? = some m → k.axes.meets m.direction = true →
      s.flushed ≤ m.start) →
    speed * 0.000000001 ≤ s.stepDistance →
    |s.commanded - P first.start| ≤ s.stepDistance + 0.00000001 →
    advanceAll k q (times ++ [time]) s = some s' →
    |s'.commanded - P time| ≤ s.stepDistance + 0.00000001 := by
  intro h
  obtain ⟨s, hs, hcommanded, -⟩ := cruise_run
  have := h _ _ cruisePosition 10 atRest s (.hold 0 1 .origin) [2] (3 / 2) cruise_trackable rfl
    (fun i m hm hmoves => by
      rcases cruise_cases hm with ⟨-, rfl⟩ | ⟨-, rfl⟩ <;> norm_num [atRest, Segment.hold])
    (by norm_num [atRest]) (by norm_num [atRest, Segment.hold, cruisePosition]) hs
  rw [hcommanded, cruisePosition_of_mem (by norm_num) (by norm_num)] at this
  norm_num [atRest] at this

end StepTracker

end PrinterMotion
