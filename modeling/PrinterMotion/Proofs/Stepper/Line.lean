/-
The search for steps along a line. Two positions taken on the line make the secant exact, so a search
that has not come to a boundary yet goes on in longer strides until the boundary is passed, and then hits
it. The rounds that are left are bounded by the strides to the end of the range and by the positions that
may still be off the line. Only behind a turn can the boundary lie in front of the range, where a search
halves its bracket down to a point.
-/
import PrinterMotion.Proofs.Stepper.Tracking

namespace PrinterMotion

variable {F : Type} [Exact F]

namespace Search

/-! ## One round, spelled out -/

/-- Where the line through the two latest positions meets the boundary. -/
def secant (s : Search F) : F :=
  (s.oldTime * (s.position - s.target) - s.time * (s.oldPosition - s.target)) /
    (s.position - s.target - (s.oldPosition - s.target))

theorem propose_cases {s s' : Search F} {finish t : F} (h : s.propose finish = some (t, s')) :
    (s.low < s.secant ∧ s.secant < s.high ∧ t = s.secant ∧ s' = s) ∨
    ¬(s.low < s.secant ∧ s.secant < s.high) ∧
      (s.bracketed = true ∧ t = (s.low + s.high) / 2 ∧ s' = { s with oscillating := false } ∨
        s.bracketed = false ∧ s.time < finish ∧ t = s.high ∧
          s' = { s with high := min (2 * s.high - s.last) finish }) := by
  have hhalf : (0.5 : F) * (s.low + s.high) = (s.low + s.high) / 2 := by norm_num; ring
  have htwo : (2.0 : F) = 2 := by norm_num
  simp only [propose, Scalar.min_eq, hhalf, htwo] at h
  change (if s.low < s.secant ∧ s.secant < s.high then _ else _) = _ at h
  by_cases hs : s.low < s.secant ∧ s.secant < s.high
  · rw [if_pos hs] at h
    cases h
    exact .inl ⟨hs.1, hs.2, rfl, rfl⟩
  rw [if_neg hs] at h
  refine .inr ⟨hs, ?_⟩
  by_cases hb : s.bracketed = true
  · rw [if_pos hb] at h
    cases h
    exact .inl ⟨hb, rfl, rfl⟩
  rw [if_neg hb] at h
  by_cases hf : finish ≤ s.time
  · rw [if_pos hf] at h; cases h
  · rw [if_neg hf] at h
    cases h
    exact .inr ⟨by simpa using hb, not_le.1 hf, rfl, rfl⟩

theorem judge_unsettled {s s' : Search F} {d : F} (h : s.judge d = (false, s')) :
    timeTolerance < |s.position - s.target| ∧ s' = s.narrow d ∧
      (s'.bracketed = true → timeTolerance < s'.high - s'.low) := by
  unfold judge at h
  rw [Scalar.abs_eq, positionTolerance_eq] at h
  split at h
  · rename_i hp
    rw [Prod.mk.injEq] at h
    obtain ⟨hb, rfl⟩ := h
    exact ⟨hp, rfl, fun hb' => by simpa [hb'] using hb⟩
  · cases h

theorem judge_settled {s s' : Search F} {d : F} (h : s.judge d = (true, s')) :
    |s.position - s.target| ≤ timeTolerance ∧ s' = s ∨
    timeTolerance < |s.position - s.target| ∧ s' = s.narrow d ∧ s'.bracketed = true ∧
      s'.high - s'.low ≤ timeTolerance := by
  unfold judge at h
  rw [Scalar.abs_eq, positionTolerance_eq] at h
  split at h
  · rename_i hp
    rw [Prod.mk.injEq] at h
    obtain ⟨hb, rfl⟩ := h
    rw [Bool.and_eq_true] at hb
    exact .inr ⟨hp, rfl, hb.1, by simpa using hb.2⟩
  · cases h
    exact .inl ⟨not_lt.1 (by assumption), rfl⟩

/-- Ahead of the boundary a rising search closes its bracket. -/
theorem narrow_past {s : Search F} (d : F) (hf : s.forward = true) (hc : s.oscillating = false)
    (h : s.target < s.position) : s.narrow d = { s with
      oscillating := s.bracketed && decide (s.oldTime ≤ s.low), high := s.time, bracketed := true } := by
  have hpos : (0 : F) < s.position - s.target := sub_pos.2 h
  simp [narrow, hf, hc, hpos]

/-- Behind the boundary, but not by more than tells a turn, a rising search has come further. -/
theorem narrow_short {s : Search F} {d : F} (hf : s.forward = true) (h : s.position ≤ s.target)
    (h' : s.target - (d + d + turnMargin) ≤ s.position) : s.narrow d = { s with low := s.time } := by
  have h1 : ¬ (0 : F) < s.position - s.target := by linarith
  have h2 : ¬ s.position - s.target < -(d + d + turnMargin) := by linarith
  simp only [narrow, hf, if_true, Scalar.zero_literal, if_neg h1, if_neg h2]

/-- A falling search comes further as long as the position stays within the margin. -/
theorem narrow_stays {s : Search F} {d : F} (hf : s.forward = false) (h : s.target ≤ s.position)
    (h' : s.position ≤ s.target + (d + d + turnMargin)) : s.narrow d = { s with low := s.time } := by
  have h1 : ¬ (0 : F) < -(s.position - s.target) := by linarith
  have h2 : ¬ -(s.position - s.target) < -(d + d + turnMargin) := by linarith
  simp only [narrow, hf, Bool.false_eq_true, if_false, Scalar.zero_literal, if_neg h1, if_neg h2]

/-- Beyond the margin a falling search turns. -/
theorem narrow_turned {s : Search F} {d : F} (hf : s.forward = false) (hd : 0 ≤ d)
    (h : s.target + (d + d + turnMargin) < s.position) : s.narrow d = { s with
      forward := true, target := s.target + 2 * d, low := s.last, high := s.time, turned := true,
      bracketed := true, oscillating := false } := by
  have hm := tolerances (F := F)
  have h1 : ¬ (0 : F) < -(s.position - s.target) := by linarith [hm.1, hm.2]
  have h2 : -(s.position - s.target) < -(d + d + turnMargin) := by linarith
  have htwo : (2.0 : F) = 2 := by norm_num
  simp only [narrow, hf, Bool.false_eq_true, if_false, Scalar.zero_literal, if_neg h1, if_pos h2,
    Bool.not_false, Stepper.signed, if_true, htwo]

/-! ## Positions on a line -/

/-- The position at a time, moving at a constant speed. -/
def line (c v t : F) : F := c + v * t

/-- At most `e` of the two latest positions may be off the line; the latest one is taken first. -/
structure Aims (c v : F) (e : Nat) (s : Search F) : Prop where
  position : e ≤ 1 → s.position = line c v s.time
  oldPosition : e = 0 → s.oldPosition = line c v s.oldTime ∧ s.oldTime ≠ s.time

/-- A range that is searched along a line: the way within the tolerance is short against a step length,
and sixty doublings of the tolerance reach from end to end. -/
structure Steady (v d start finish : F) : Prop where
  speed_pos : 0 < v
  fine : 1000 * timeTolerance ≤ d
  slow : 10 * (v * timeTolerance) ≤ d
  start_nonneg : 0 ≤ start
  span : finish - start ≤ 2 ^ 60 * timeTolerance

/-- A search for the boundary `T` that goes up, from a step not far behind it. -/
structure Rising (c v d T : F) (s : Search F) : Prop where
  forward : s.forward = true
  target : s.target = T
  near : T - 2 * d ≤ line c v s.last

/-- The boundary is not passed yet: `k` strides go beyond the range, behind `e` positions off the line. -/
structure Seek (c v d finish T : F) (n : Nat) (s : Search F) : Prop extends Rising c v d T s where
  calm : s.oscillating = false
  free : s.bracketed = false
  short : line c v s.low + timeTolerance < T
  rounds : ∃ e k : Nat, Aims c v e s ∧ finish - s.last ≤ 2 ^ k * (s.high - s.last) ∧
    (s.time < finish → e + k + 2 ≤ n)

/-- The boundary has just been passed for the first time. -/
structure Pinch (c v d T : F) (n : Nat) (s : Search F) : Prop extends Rising c v d T s where
  calm : s.oscillating = false
  bracketed : s.bracketed = true
  short : line c v s.low < T
  past : T < line c v s.high
  time : s.time = s.high
  aims : Aims c v 1 s
  rounds : 1 ≤ n

/-- The boundary lies in the bracket, and both positions are on the line. -/
structure Close (c v d finish T : F) (s : Search F) : Prop extends Rising c v d T s where
  bracketed : s.bracketed = true
  short : line c v s.low < T
  past : T < line c v s.high
  time : s.time = s.low ∨ s.time = s.high
  high_le : s.high ≤ finish
  aims : Aims c v 0 s

/-- The boundary lies at the start of the range or not far in front of it: `k` halvings make the bracket
a point, behind `e` positions off the line. -/
structure Press (c v d start T : F) (n : Nat) (s : Search F) : Prop extends Rising c v d T s where
  calm : s.oscillating = false
  bracketed : s.bracketed = true
  low : s.low = start
  behind : T ≤ line c v start
  margin : line c v start ≤ T + turnMargin
  time : s.time = s.high
  rounds : ∃ e k : Nat, Aims c v e s ∧ s.high - s.low ≤ 2 ^ k * timeTolerance ∧ e ≤ 1 ∧ e + k ≤ n

/-- How a search for the boundary `T` stands that has at most `n` rounds left. -/
inductive Climb (c v d start finish T : F) (n : Nat) (s : Search F) : Prop
  | seek (h : Seek c v d finish T n s)
  | pinch (h : Pinch c v d T n s)
  | close (h : Close c v d finish T s)
  | press (h : Press c v d start T n s)

variable {c v d start finish T t : F} {s q : Search F}

theorem line_sub (c v a b : F) : line c v b - line c v a = v * (b - a) := by
  unfold line; ring

theorem Steady.line_lt (h : Steady v d start finish) (c : F) {a b : F} (hab : a < b) :
    line c v a < line c v b := by
  have := mul_pos h.speed_pos (sub_pos.2 hab)
  have := line_sub c v a b
  linarith

theorem Steady.line_le (h : Steady v d start finish) (c : F) {a b : F} (hab : a ≤ b) :
    line c v a ≤ line c v b := by
  have := mul_nonneg h.speed_pos.le (sub_nonneg.2 hab)
  have := line_sub c v a b
  linarith

theorem Steady.lt_of_line_lt (h : Steady v d start finish) {a b : F} (hab : line c v a < line c v b) :
    a < b :=
  lt_of_not_ge fun hle => absurd (h.line_le c hle) (not_le.2 hab)

theorem Aims.keep {e : Nat} {s' : Search F} (h : Aims c v e s) (ht : s'.time = s.time)
    (hp : s'.position = s.position) (hot : s'.oldTime = s.oldTime) (hop : s'.oldPosition = s.oldPosition) :
    Aims c v e s' :=
  ⟨by rw [ht, hp]; exact h.position, by rw [hot, hop, ht]; exact h.oldPosition⟩

theorem aims_note (c v t : F) (q : Search F) : Aims c v 1 (q.note t (line c v t)) := ⟨fun _ => rfl, nofun⟩

/-- One more position is on the line. -/
theorem Aims.note {e : Nat} (h : Aims c v e q) (ht : q.time ≠ t) :
    Aims c v (e - 1) (q.note t (line c v t)) :=
  ⟨fun _ => rfl, fun _ => ⟨h.position (by omega), ht⟩⟩

/-- The secant through two positions on the line meets the boundary where the line does. -/
theorem Aims.line_secant (h : Aims c v 0 s) (hv : v ≠ 0) : line c v s.secant = s.target := by
  obtain ⟨hold, hne⟩ := h.oldPosition rfl
  have hne' : s.time - s.oldTime ≠ 0 := sub_ne_zero.2 hne.symm
  have hden : s.position - s.target - (s.oldPosition - s.target) = v * (s.time - s.oldTime) := by
    rw [h.position (by omega), hold]; unfold line; ring
  have hnum : s.oldTime * (s.position - s.target) - s.time * (s.oldPosition - s.target) =
      (s.target - c) * (s.time - s.oldTime) := by
    rw [h.position (by omega), hold]; unfold line; ring
  unfold secant line
  rw [hden, hnum]
  field_simp
  ring

/-! ## One round of a climb -/

/-- Off the boundary a position on the line is beyond it or short of it, and the search closes its
bracket or comes further. -/
theorem Rising.narrow (hst : Steady v d start finish) (hr : Ready start finish s) (h : Rising c v d T s)
    (hp : s.propose finish = some (t, q)) (hcalm : q.oscillating = false)
    (hoff : timeTolerance < |line c v t - T|) :
    T < line c v t ∧ (q.note t (line c v t)).narrow d = { q.note t (line c v t) with
      oscillating := q.bracketed && decide (q.time ≤ q.low), high := t, bracketed := true } ∨
    line c v t + timeTolerance < T ∧
      (q.note t (line c v t)).narrow d = { q.note t (line c v t) with low := t } := by
  have hq := proposes_of_eq hr hp
  have htarget : (q.note t (line c v t)).target = T := hq.target.trans h.target
  have hforward : (q.note t (line c v t)).forward = true := hq.forward.trans h.forward
  have hε := timeTolerance_pos (F := F)
  have hmargin := tolerances (F := F)
  have hahead := hst.line_le c (hr.last_le.trans hq.low_lt.le)
  have hnear := h.near
  rcases lt_abs.1 hoff with hpast | hshort
  · have hpast' : T < line c v t := by linarith
    exact .inl ⟨hpast', narrow_past d hforward hcalm (by rw [htarget]; exact hpast')⟩
  · refine .inr ⟨by linarith, narrow_short hforward ?_ ?_⟩ <;> rw [htarget]
    · show line c v t ≤ T
      linarith
    · show T - (d + d + turnMargin) ≤ line c v t
      linarith [hmargin.1, hmargin.2]

theorem Rising.keep (h : Rising c v d T s) {s' : Search F} (hf : s'.forward = s.forward)
    (ht : s'.target = s.target) (hl : s'.last = s.last) : Rising c v d T s' :=
  ⟨hf.trans h.forward, ht.trans h.target, by rw [hl]; exact h.near⟩

/-- A stride halves what is left to double. -/
theorem reach_stride {last high : F} {k : Nat} (hhigh : last ≤ high) (hfinish : last ≤ finish)
    (h : finish - last ≤ 2 ^ k * (high - last)) :
    finish - last ≤ 2 ^ (k - 1) * (min (2 * high - last) finish - last) := by
  rcases min_choice (2 * high - last) finish with hm | hm <;> rw [hm]
  · cases k with
    | zero => rw [pow_zero, one_mul] at h ⊢; linarith
    | succ k => rw [pow_succ] at h; rw [Nat.add_sub_cancel]; linarith
  · have hpow : (1 : F) ≤ 2 ^ (k - 1) := one_le_pow₀ (by norm_num)
    linarith [mul_le_mul_of_nonneg_right hpow (sub_nonneg.2 hfinish)]

theorem strides_left {last high : F} {k : Nat} (h : finish - last ≤ 2 ^ k * (high - last)) (hlt : high < finish) :
    k ≠ 0 := by
  rintro rfl
  rw [pow_zero, one_mul] at h
  linarith

theorem Seek.narrow {n : Nat} (hst : Steady v d start finish) (hr : Ready start finish s)
    (h : Seek c v d finish T n s) (hp : s.propose finish = some (t, q))
    (hoff : timeTolerance < |line c v t - T|) :
    ∃ m < n, Climb c v d start finish T m ((q.note t (line c v t)).narrow d) := by
  have hε := timeTolerance_pos (F := F)
  have hq := proposes_of_eq hr hp
  have hshort := h.short
  obtain ⟨hlow, -⟩ := hr.free h.free
  obtain ⟨e, k, aims, reach, rounds⟩ := h.rounds
  have hmore := rounds (by rw [← hlow]; exact hq.low_lt.trans_le hq.le_finish)
  have hlast := hr.last_le.trans hq.low_lt.le
  rcases propose_cases hp with ⟨-, -, ht, rfl⟩ | ⟨-, ⟨hb, -⟩ | ⟨-, -, rfl, rfl⟩⟩
  · -- the secant misses the boundary, so it went through a position off the line, which is now gone
    have he : e ≠ 0 := by
      rintro rfl
      rw [ht, aims.line_secant hst.speed_pos.ne', h.target, sub_self, abs_zero] at hoff
      linarith
    rcases h.toRising.narrow hst hr hp h.calm hoff with ⟨hpast, hn⟩ | ⟨hbehind, hn⟩ <;> rw [hn]
    · exact ⟨1, by omega, .pinch ⟨h.toRising.keep rfl rfl rfl, by simp [h.free], rfl,
        show line c v q.low < T by linarith, hpast, rfl, (aims_note c v t q).keep rfl rfl rfl rfl, le_refl 1⟩⟩
    · exact ⟨n - 1, by omega, .seek ⟨h.toRising.keep rfl rfl rfl, h.calm, h.free, hbehind, e - 1, k,
        (aims.note (hlow ▸ hq.low_lt.ne)).keep rfl rfl rfl rfl, reach, fun _ => by omega⟩⟩
  · rw [h.free] at hb; cases hb
  · -- a stride: it leads beyond the boundary, or the next one is twice as long
    rcases h.toRising.narrow hst hr hp h.calm hoff with ⟨hpast, hn⟩ | ⟨hbehind, hn⟩ <;> rw [hn]
    · exact ⟨1, by omega, .pinch ⟨h.toRising.keep rfl rfl rfl, by simp [h.free], rfl,
        show line c v s.low < T by linarith, hpast, rfl, (aims_note c v s.high s).keep rfl rfl rfl rfl, le_refl 1⟩⟩
    · refine ⟨n - 1, by omega, .seek ⟨h.toRising.keep rfl rfl rfl, h.calm, h.free, hbehind, e - 1, k - 1,
        (aims.note (hlow ▸ hq.low_lt.ne)).keep rfl rfl rfl rfl, reach_stride hlast (hlast.trans hq.le_finish) reach,
        fun hlt => ?_⟩⟩
      have hk := strides_left reach hlt
      omega

theorem Pinch.narrow {n : Nat} (hst : Steady v d start finish) (hr : Ready start finish s)
    (h : Pinch c v d T n s) (hp : s.propose finish = some (t, q))
    (hoff : timeTolerance < |line c v t - T|) :
    ∃ m < n, Climb c v d start finish T m ((q.note t (line c v t)).narrow d) := by
  have hε := timeTolerance_pos (F := F)
  have hq := proposes_of_eq hr hp
  have hmore := h.rounds
  obtain ⟨hhigh, hlt⟩ := hq.bracket h.bracketed
  obtain ⟨hcalm, htime, hpos⟩ : q.oscillating = false ∧ q.time = s.time ∧ q.position = s.position := by
    rcases propose_cases hp with ⟨-, -, -, rfl⟩ | ⟨-, ⟨-, -, rfl⟩ | ⟨hb, -⟩⟩
    · exact ⟨h.calm, rfl, rfl⟩
    · exact ⟨rfl, rfl, rfl⟩
    · rw [h.bracketed] at hb; cases hb
  have haims : Aims c v 0 (q.note t (line c v t)) := by
    refine ⟨fun _ => rfl, fun _ => ⟨?_, ?_⟩⟩
    · show q.position = line c v q.time
      rw [hpos, htime]
      exact h.aims.position (le_refl 1)
    · show q.time ≠ t
      rw [htime, h.time]
      exact hlt.ne'
  refine ⟨0, by omega, .close ?_⟩
  rcases h.toRising.narrow hst hr hp hcalm hoff with ⟨hpast, hn⟩ | ⟨hbehind, hn⟩ <;> rw [hn]
  · exact ⟨h.toRising.keep hq.forward hq.target hq.last, rfl, show line c v q.low < T by rw [hq.low]; exact h.short,
      hpast, .inr rfl, hq.le_finish, haims.keep rfl rfl rfl rfl⟩
  · exact ⟨h.toRising.keep hq.forward hq.target hq.last, hq.bracketed.trans h.bracketed,
      show line c v t < T by linarith, show T < line c v q.high by rw [hhigh]; exact h.past, .inl rfl, hq.high_le,
      haims.keep rfl rfl rfl rfl⟩

/-- In a bracket the secant through two positions on the line hits the boundary. -/
theorem Close.hit (hst : Steady v d start finish) (h : Close c v d finish T s)
    (hp : s.propose finish = some (t, q)) : line c v t = T := by
  have hsecant := (h.aims.line_secant hst.speed_pos.ne').trans h.target
  rcases propose_cases hp with ⟨-, -, rfl, -⟩ | ⟨hout, -⟩
  · exact hsecant
  · exact absurd ⟨hst.lt_of_line_lt (c := c) (by rw [hsecant]; exact h.short),
      hst.lt_of_line_lt (c := c) (by rw [hsecant]; exact h.past)⟩ hout

theorem Press.narrow {n : Nat} (hst : Steady v d start finish) (hr : Ready start finish s)
    (hopen : timeTolerance < s.high - s.low) (h : Press c v d start T n s) (hp : s.propose finish = some (t, q))
    (hoff : timeTolerance < |line c v t - T|) :
    ∃ m < n, Climb c v d start finish T m ((q.note t (line c v t)).narrow d) := by
  have hε := timeTolerance_pos (F := F)
  have hq := proposes_of_eq hr hp
  obtain ⟨-, hlt⟩ := hq.bracket h.bracketed
  obtain ⟨e, k, aims, width, single, rounds⟩ := h.rounds
  have hbeyond : T < line c v t := h.behind.trans_lt (hst.line_lt c (h.low ▸ hq.low_lt))
  have hstill : (s.bracketed && decide (s.time ≤ s.low)) = false := by
    rw [h.bracketed, h.time, Bool.true_and, decide_eq_false_iff_not, not_le]
    exact hr.bracket h.bracketed
  rcases propose_cases hp with ⟨hlow, -, ht, rfl⟩ | ⟨-, ⟨-, ht, rfl⟩ | ⟨hb, -⟩⟩
  · -- the line meets the boundary in front of the bracket, so the secant went through a position off it
    have he : e ≠ 0 := by
      rintro rfl
      rw [ht, aims.line_secant hst.speed_pos.ne', h.target] at hbeyond
      exact lt_irrefl _ hbeyond
    rcases h.toRising.narrow hst hr hp h.calm hoff with ⟨-, hn⟩ | ⟨hshort, -⟩
    · rw [hn]
      exact ⟨n - 1, by omega, .press ⟨h.toRising.keep rfl rfl rfl, hstill, rfl, h.low, h.behind, h.margin, rfl,
        e - 1, k, (aims.note (by rw [h.time]; exact hlt.ne')).keep rfl rfl rfl rfl,
        show t - q.low ≤ _ by linarith, by omega, by omega⟩⟩
    · exact absurd hbeyond (not_lt.2 (by linarith))
  · -- the middle of the bracket: the line is beyond the boundary there too, so half the width is left
    have hk : k ≠ 0 := by
      rintro rfl
      rw [pow_zero, one_mul] at width
      linarith
    obtain ⟨k, rfl⟩ := Nat.exists_eq_succ_of_ne_zero hk
    rw [pow_succ] at width
    rcases h.toRising.narrow hst hr hp rfl hoff with ⟨-, hn⟩ | ⟨hshort, -⟩
    · rw [hn]
      exact ⟨n - 1, by omega, .press ⟨h.toRising.keep rfl rfl rfl, hstill, rfl, h.low, h.behind, h.margin, rfl,
        e - 1, k, (aims.note (by rw [h.time]; exact hlt.ne')).keep rfl rfl rfl rfl,
        show t - s.low ≤ _ by linarith, by omega, by omega⟩⟩
    · exact absurd hbeyond (not_lt.2 (by linarith))
  · rw [h.bracketed] at hb; cases hb

/-- A round off the boundary leaves a climb with fewer rounds. -/
theorem Climb.narrow {n : Nat} (hst : Steady v d start finish) (hr : Ready start finish s)
    (hopen : s.bracketed = true → timeTolerance < s.high - s.low) (h : Climb c v d start finish T n s)
    (hp : s.propose finish = some (t, q)) (hoff : timeTolerance < |line c v t - T|) :
    ∃ m < n, Climb c v d start finish T m ((q.note t (line c v t)).narrow d) := by
  cases h with
  | seek h => exact h.narrow hst hr hp hoff
  | pinch h => exact h.narrow hst hr hp hoff
  | close h =>
    rw [h.hit hst hp, sub_self, abs_zero] at hoff
    exact absurd hoff (not_lt.2 (timeTolerance_pos (F := F)).le)
  | press h => exact h.narrow hst hr (hopen h.bracketed) hp hoff

/-! ## Where a climb ends -/

/-- A step at the boundary `T` is taken when the position is within the tolerances of it, unless the
boundary lies up to the margin in front of the range: then it is taken where the range starts. -/
structure Strikes (c v start finish T t : F) : Prop where
  reached : T ≤ line c v finish + timeTolerance
  near : |line c v t - T| ≤ (1 + v) * timeTolerance ∨
    T ≤ line c v start ∧ line c v start ≤ T + turnMargin ∧ start < t ∧ t ≤ start + timeTolerance

/-- What a search for the boundary `T` has found. -/
structure Found (c v start finish T : F) (s : Search F) : Prop where
  forward : s.forward = true
  target : s.target = T
  position : s.position = line c v s.time
  strikes : Strikes c v start finish T s.time

theorem Steady.abs_line_le (hst : Steady v d start finish) {a b t : F} (ht : t = a ∨ t = b)
    (hab : b - a ≤ timeTolerance) (ha : line c v a < T) (hb : T < line c v b) :
    |line c v t - T| ≤ (1 + v) * timeTolerance := by
  have hε := timeTolerance_pos (F := F)
  have hsub := line_sub c v a b
  have hwide := mul_le_mul_of_nonneg_left hab hst.speed_pos.le
  rw [abs_le]
  rcases ht with rfl | rfl <;> constructor <;> linarith

/-- A climb whose bracket has become a point has found the boundary. -/
theorem Climb.settled {n : Nat} (hst : Steady v d start finish) (h : Climb c v d start finish T n s)
    (hb : s.bracketed = true) (hpoint : s.high - s.low ≤ timeTolerance) (hstart : start < s.time)
    (hfinish : s.time ≤ finish) : Found c v start finish T s := by
  have hε := timeTolerance_pos (F := F)
  cases h with
  | seek h => rw [h.free] at hb; cases hb
  | pinch h =>
    have hpast := h.past.trans_le (hst.line_le c (h.time ▸ hfinish))
    exact ⟨h.forward, h.target, h.aims.position (le_refl 1), by linarith,
      .inl (hst.abs_line_le (.inr h.time) hpoint h.short h.past)⟩
  | close h =>
    have hpast := h.past.trans_le (hst.line_le c h.high_le)
    exact ⟨h.forward, h.target, h.aims.position (Nat.zero_le 1), by linarith,
      .inl (hst.abs_line_le h.time hpoint h.short h.past)⟩
  | press h =>
    obtain ⟨e, k, aims, -, single, -⟩ := h.rounds
    have hbehind := h.behind.trans (hst.line_le c (hstart.le.trans hfinish))
    have hnear := hpoint
    rw [← h.time, h.low] at hnear
    exact ⟨h.forward, h.target, aims.position single, by linarith, .inr ⟨h.behind, h.margin, hstart, by linarith⟩⟩

/-! ## Before a turn -/

/-- How a search that goes down from `x` stands while the line goes up: the position is not beyond the
margin that tells a turn, and `n` rounds are enough to get there or to the end of the range, and to climb
from there. -/
structure Fall (c v d start finish x : F) (n : Nat) (s : Search F) : Prop where
  forward : s.forward = false
  target : s.target = x - d
  last : s.last = start
  free : s.bracketed = false
  start_ge : x ≤ line c v start
  oldTime_le : s.oldTime ≤ s.time
  oldPosition_ge : x ≤ s.oldPosition
  oldPosition_le : s.oldPosition ≤ s.position
  position_le : s.position ≤ line c v s.time
  within : line c v s.time ≤ x + d + turnMargin
  rounds : ∃ k : Nat, finish - s.last ≤ 2 ^ k * (s.high - s.last) ∧ (s.time < finish → k + 63 ≤ n)

theorem Steady.step_pos (hst : Steady v d start finish) : 0 < d := by
  linarith [hst.fine, timeTolerance_pos (F := F)]

variable {x : F} {n : Nat}

/-- The secant of a position that does not fall leads back. -/
theorem Fall.secant_le (hst : Steady v d start finish) (hr : Ready start finish s)
    (h : Fall c v d start finish x n s) : s.secant ≤ s.low := by
  have hd := hst.step_pos
  have htarget := h.target
  have hrise := h.oldPosition_le
  have hge := h.oldPosition_ge
  have hden : s.position - s.target - (s.oldPosition - s.target) = s.position - s.oldPosition := by ring
  unfold secant
  rw [hden]
  rcases hrise.eq_or_lt with heq | hlt
  · rw [heq, sub_self, div_zero]
    exact hst.start_nonneg.trans (hr.start_le.trans hr.last_le)
  · have hback := mul_nonneg (sub_nonneg.2 h.oldTime_le) (show 0 ≤ s.position - s.target by linarith)
    rw [(hr.free h.free).1, div_le_iff₀ (sub_pos.2 hlt)]
    linarith

/-- A round stays within the margin, or the search turns to the boundary ahead. -/
theorem Fall.narrow (hst : Steady v d start finish) (hr : Ready start finish s)
    (h : Fall c v d start finish x n s) (hp : s.propose finish = some (t, q)) :
    timeTolerance < |line c v t - q.target| ∧ ∃ m < n,
      Fall c v d start finish x m ((q.note t (line c v t)).narrow d) ∨
      Climb c v d start finish (x + d) m ((q.note t (line c v t)).narrow d) ∧
        ((q.note t (line c v t)).narrow d).bracketed = true ∧ x + d + turnMargin < line c v finish := by
  have hε := timeTolerance_pos (F := F)
  have hfine := hst.fine
  have hmargin := turnMargin_eq (F := F)
  have hq := proposes_of_eq hr hp
  obtain ⟨hlow, -⟩ := hr.free h.free
  obtain ⟨k, hreach, hrounds⟩ := h.rounds
  have hmore := hrounds (by rw [← hlow]; exact hq.low_lt.trans_le hq.le_finish)
  rcases propose_cases hp with ⟨hout, -⟩ | ⟨-, ⟨hb, -⟩ | ⟨-, -, rfl, rfl⟩⟩
  · exact absurd hout (not_lt.2 (h.secant_le hst hr))
  · rw [h.free] at hb; cases hb
  -- the secant leads back and there is no bracket, so the search has gone on by a stride
  have hforward : ({ s with high := min (2 * s.high - s.last) finish }.note s.high
      (line c v s.high)).forward = false := h.forward
  have htarget := h.target
  have hrise := hst.line_lt c (hlow ▸ hq.low_lt : s.time < s.high)
  have hpos := h.oldPosition_ge.trans (h.oldPosition_le.trans h.position_le)
  refine ⟨lt_abs.2 (.inl (show timeTolerance < line c v s.high - s.target by linarith)), ?_⟩
  by_cases hin : line c v s.high ≤ x + d + turnMargin
  · rw [narrow_stays hforward (show s.target ≤ line c v s.high by linarith)
      (show line c v s.high ≤ s.target + (d + d + turnMargin) by linarith)]
    refine ⟨n - 1, by omega, .inl ⟨h.forward, htarget, h.last, h.free, h.start_ge, (hlow ▸ hq.low_lt.le),
      h.oldPosition_ge.trans h.oldPosition_le, h.position_le.trans hrise.le, le_refl _, hin, k - 1,
      reach_stride (hr.last_le.trans hq.low_lt.le) ((hr.last_le.trans hq.low_lt.le).trans hq.le_finish) hreach,
      fun hlt => ?_⟩⟩
    have hk := strides_left hreach hlt
    omega
  · rw [not_le] at hin
    rw [narrow_turned hforward hst.step_pos.le
      (show s.target + (d + d + turnMargin) < line c v s.high by linarith)]
    have hnear : x + d - 2 * d ≤ line c v s.last := by rw [h.last]; linarith [h.start_ge, hst.step_pos]
    have htwo : s.target + 2 * d = x + d := by linarith
    have hend : x + d + turnMargin < line c v finish := hin.trans_le (hst.line_le c hq.le_finish)
    have haims := aims_note c v s.high s
    -- the line may have been beyond the boundary where the range starts, as behind a flush within the margin
    by_cases hfront : line c v start < x + d
    · refine ⟨1, by omega, .inr ⟨.pinch ⟨⟨rfl, htwo, hnear⟩, rfl, rfl, ?_, ?_, rfl, haims.keep rfl rfl rfl rfl,
        le_refl 1⟩, rfl, hend⟩⟩
      · show line c v s.last < x + d
        rw [h.last]; exact hfront
      · show x + d < line c v s.high
        linarith
    · have hstart := hst.line_le c (hr.start_le.trans (hr.last_le.trans hlow.le))
      refine ⟨61, by omega, .inr ⟨.press ⟨⟨rfl, htwo, hnear⟩, rfl, rfl, h.last, not_lt.1 hfront,
        hstart.trans h.within, rfl, 1, 60, haims.keep rfl rfl rfl rfl, ?_, le_refl 1, by omega⟩, rfl, hend⟩⟩
      show s.high - s.last ≤ _
      rw [h.last]
      linarith [hst.span, hq.le_finish]

end Search

end PrinterMotion
