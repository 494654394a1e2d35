/-
Boundary after boundary along a line. The search for one boundary keeps its phase from round to round and
lowers the rounds left, so it ends before its positions are used up. A climb that has found a boundary
begins anew at the next; a search that falls, as that of a stepper that has not moved, waits until the
line is beyond the margin and then climbs from the first boundary on. So from range to range a stepper
either waits, or its steps have led to the last boundary before the line.
-/
import PrinterMotion.Proofs.Stepper.Line

namespace PrinterMotion

variable {F : Type} [Exact F]

namespace Search

variable {c v d start finish T t x a : F} {s q s' : Search F} {n : Nat}

/-! ## The search for one boundary -/

/-- A search of a range between two rounds, with the step before it at `a`. -/
structure Stands (start finish a : F) (phase : Nat → Search F → Prop) (n : Nat) (s : Search F) : Prop where
  ready : Ready start finish s
  last : s.last = a
  isOpen : s.bracketed = true → timeTolerance < s.high - s.low
  phase : phase n s

/-- A search that falls, or that has turned to the boundary ahead because the line leads beyond the
margin. -/
def Turning (c v d start finish x : F) (n : Nat) (s : Search F) : Prop :=
  Fall c v d start finish x n s ∨
    Climb c v d start finish (x + d) n s ∧ s.bracketed = true ∧ x + d + turnMargin < line c v finish

/-- What is kept of a crossing: the step before it, and where it lies. -/
structure Crossed (c v d start finish a T : F) (s : Search F) : Prop where
  last : s.last = a
  start_le : start ≤ a
  last_lt : a < s.time
  le_finish : s.time ≤ finish
  found : Found c v start finish T s

theorem Climb.rising (h : Climb c v d start finish T n s) : Rising c v d T s := by
  cases h with
  | seek h => exact h.toRising
  | pinch h => exact h.toRising
  | close h => exact h.toRising
  | press h => exact h.toRising

theorem Stands.climb_unsettled (hst : Steady v d start finish)
    (h : Stands start finish a (Climb c v d start finish T) n s)
    (hp : Probes (fun t => .ok (line c v t)) d finish s false s') :
    ∃ m < n, Stands start finish a (Climb c v d start finish T) m s' := by
  obtain ⟨hready, hlast⟩ := hp.ready h.ready
  obtain ⟨t, q, p, hpropose, he, hj⟩ := hp
  cases he
  obtain ⟨hoff, rfl, hopen⟩ := judge_unsettled hj
  have htarget : q.target = T := (proposes_of_eq h.ready hpropose).target.trans h.phase.rising.target
  change timeTolerance < |line c v t - q.target| at hoff
  rw [htarget] at hoff
  obtain ⟨m, hm, hclimb⟩ := h.phase.narrow hst h.ready h.isOpen hpropose hoff
  exact ⟨m, hm, hready, hlast.trans h.last, hopen, hclimb⟩

theorem Stands.climb_settled (hst : Steady v d start finish)
    (h : Stands start finish a (Climb c v d start finish T) n s)
    (hp : Probes (fun t => .ok (line c v t)) d finish s true s') : Crossed c v d start finish a T s' := by
  obtain ⟨hlt, hle, hlast⟩ := hp.found h.ready
  obtain ⟨t, q, p, hpropose, he, hj⟩ := hp
  cases he
  have hq := proposes_of_eq h.ready hpropose
  have htarget : q.target = T := hq.target.trans h.phase.rising.target
  have hstart : start ≤ a := h.last ▸ h.ready.start_le
  rw [h.last] at hlt hlast
  refine ⟨hlast, hstart, hlt, hle, ?_⟩
  rcases judge_settled hj with ⟨hon, rfl⟩ | ⟨hoff, rfl, hb, hpoint⟩
  · change |line c v t - q.target| ≤ timeTolerance at hon
    rw [htarget] at hon
    have hε := mul_nonneg hst.speed_pos.le (timeTolerance_pos (F := F)).le
    have hend := hst.line_le c (show t ≤ finish from hle)
    exact ⟨hq.forward.trans h.phase.rising.forward, htarget, rfl,
      by linarith [(abs_le.1 hon).1], .inl (show |line c v t - T| ≤ _ by linarith)⟩
  · -- the bracket became a point in this round, so the climb goes through it before it is judged
    change timeTolerance < |line c v t - q.target| at hoff
    rw [htarget] at hoff
    obtain ⟨m, -, hclimb⟩ := h.phase.narrow hst h.ready h.isOpen hpropose hoff
    exact hclimb.settled hst hb hpoint (hstart.trans_lt hlt) hle

theorem Stands.turning_unsettled (hst : Steady v d start finish)
    (h : Stands start finish a (Turning c v d start finish x) n s)
    (hp : Probes (fun t => .ok (line c v t)) d finish s false s') :
    ∃ m < n, Stands start finish a (Turning c v d start finish x) m s' := by
  rcases h.phase with hfall | ⟨hclimb, hb, hend⟩
  · obtain ⟨hready, hlast⟩ := hp.ready h.ready
    obtain ⟨t, q, p, hpropose, he, hj⟩ := hp
    cases he
    obtain ⟨-, rfl, hopen⟩ := judge_unsettled hj
    obtain ⟨-, m, hm, hphase⟩ := hfall.narrow hst h.ready hpropose
    exact ⟨m, hm, hready, hlast.trans h.last, hopen, hphase⟩
  · obtain ⟨m, hm, hs⟩ := Stands.climb_unsettled hst ⟨h.ready, h.last, h.isOpen, hclimb⟩ hp
    exact ⟨m, hm, hs.ready, hs.last, hs.isOpen, .inr ⟨hs.phase, hp.bracketed h.ready hb, hend⟩⟩

theorem Stands.turning_settled (hst : Steady v d start finish)
    (h : Stands start finish a (Turning c v d start finish x) n s)
    (hp : Probes (fun t => .ok (line c v t)) d finish s true s') :
    Crossed c v d start finish a (x + d) s' ∧ x + d + turnMargin < line c v finish := by
  rcases h.phase with hfall | ⟨hclimb, -, hend⟩
  · obtain ⟨hlt, hle, hlast⟩ := hp.found h.ready
    obtain ⟨t, q, p, hpropose, he, hj⟩ := hp
    cases he
    have hstart : start ≤ a := h.last ▸ h.ready.start_le
    rw [h.last] at hlt hlast
    obtain ⟨hoff, m, -, hphase⟩ := hfall.narrow hst h.ready hpropose
    rcases judge_settled hj with ⟨hon, -⟩ | ⟨-, rfl, hb, hpoint⟩
    · exact absurd hoff (not_lt.2 hon)
    -- a search that falls has no bracket to settle, so this round has turned it
    rcases hphase with hfall' | ⟨hclimb, -, hend⟩
    · rw [hfall'.free] at hb; cases hb
    · exact ⟨⟨hlast, hstart, hlt, hle, hclimb.settled hst hb hpoint (hstart.trans_lt hlt) hle⟩, hend⟩
  · exact ⟨Stands.climb_settled hst ⟨h.ready, h.last, h.isOpen, hclimb⟩ hp, hend⟩

/-- What is left of a climb where its range ends. -/
theorem Stands.climb_ended (h : Stands start finish a (Climb c v d start finish T) n s)
    (hnone : s.propose finish = none) :
    s.forward = true ∧ s.target = T ∧ line c v finish + timeTolerance < T := by
  obtain ⟨hfree, htime⟩ := propose_eq_none h.ready hnone
  have hrising := h.phase.rising
  refine ⟨hrising.forward, hrising.target, ?_⟩
  rw [← htime, ← (h.ready.free hfree).1]
  cases h.phase with
  | seek h => exact h.short
  | pinch h => exact absurd h.bracketed (by rw [hfree]; exact Bool.false_ne_true)
  | close h => exact absurd h.bracketed (by rw [hfree]; exact Bool.false_ne_true)
  | press h => exact absurd h.bracketed (by rw [hfree]; exact Bool.false_ne_true)

theorem Stands.turning_ended (h : Stands start finish a (Turning c v d start finish x) n s)
    (hnone : s.propose finish = none) :
    s.forward = false ∧ s.target = x - d ∧ line c v finish ≤ x + d + turnMargin := by
  obtain ⟨hfree, htime⟩ := propose_eq_none h.ready hnone
  rcases h.phase with hfall | ⟨-, hb, -⟩
  · exact ⟨hfall.forward, hfall.target, htime ▸ hfall.within⟩
  · rw [hfree] at hb; cases hb

/-! ## Where searches begin -/

/-- Sixty doublings of the first stride lead to the end of the range. -/
theorem Steady.reach (hst : Steady v d start finish) {stride : F} (ha : start ≤ a) (hle : a ≤ finish)
    (hs : timeTolerance ≤ stride) : finish - a ≤ 2 ^ 60 * (min (a + stride) finish - a) := by
  rcases min_choice (a + stride) finish with hm | hm <;> rw [hm]
  · have := mul_le_mul_of_nonneg_left hs (pow_nonneg (by norm_num : (0 : F) ≤ 2) 60)
    linarith [hst.span]
  · have hpow : (1 : F) ≤ 2 ^ 60 := one_le_pow₀ (by norm_num)
    linarith [mul_le_mul_of_nonneg_right hpow (sub_nonneg.2 hle)]

theorem timeTolerance_le_seekTime : (timeTolerance : F) ≤ seekTime := by
  norm_num [timeTolerance, seekTime]

theorem begin_climb (hst : Steady v d start finish) (hlt : start < finish) (hnear : T - 2 * d ≤ line c v start)
    (hshort : line c v start + timeTolerance < T) :
    Stands start finish start (Climb c v d start finish T) 64 (.begin (T - d) d start finish true) := by
  refine ⟨begin_ready _ _ _ hlt, rfl, nofun, .seek ⟨⟨rfl, ?_, hnear⟩, rfl, rfl, hshort, 2, 60,
    ⟨by omega, by omega⟩, ?_, fun _ => le_refl _⟩⟩
  · exact sub_add_cancel T d
  · simpa [Search.begin] using hst.reach (le_refl start) hlt.le timeTolerance_le_seekTime

theorem begin_turning (hst : Steady v d start finish) (hlt : start < finish) (hstart : x ≤ line c v start)
    (hin : line c v start ≤ x + d + turnMargin) :
    Stands start finish start (Turning c v d start finish x) 123 (.begin x d start finish false) := by
  refine ⟨begin_ready _ _ _ hlt, rfl, nofun, .inl ⟨rfl, ?_, rfl, rfl, hstart, le_refl _, le_refl _, le_refl _,
    hstart, hin, 60, ?_, fun _ => le_refl _⟩⟩
  · exact (sub_eq_add_neg x d).symm
  · simpa [Search.begin] using hst.reach (le_refl start) hlt.le timeTolerance_le_seekTime

/-- Wherever a step is taken, the next boundary is still ahead, and not by more than two step lengths. -/
theorem Strikes.between (hst : Steady v d start finish) (h : Strikes c v start finish T t) :
    T - d ≤ line c v t ∧ line c v t + timeTolerance < T + d := by
  have hε := timeTolerance_pos (F := F)
  have hfine := hst.fine
  have hslow := hst.slow
  have hmargin := turnMargin_eq (F := F)
  rcases h.near with hnear | ⟨h1, h2, h3, h4⟩
  · obtain ⟨h1, h2⟩ := abs_le.1 hnear
    constructor <;> linarith
  · have hsub := line_sub c v start t
    have hway := mul_le_mul_of_nonneg_left (show t - start ≤ timeTolerance by linarith) hst.speed_pos.le
    have hon := hst.line_le c h3.le
    constructor <;> linarith

/-- Behind a crossing the climb goes on to the next boundary. -/
theorem Crossed.advance (hst : Steady v d start finish) (h : Crossed c v d start finish a T s) :
    Stands start finish s.time (Climb c v d start finish (T + d)) 63 (s.advance d finish) := by
  obtain ⟨hlast, hstart, hlt, hle, hfound⟩ := h
  obtain ⟨hlow, hhigh⟩ := hfound.strikes.between hst
  refine ⟨advance_ready (hlast ▸ hstart) (hlast ▸ hlt) hle, rfl, nofun,
    .seek ⟨⟨hfound.forward, ?_, ?_⟩, rfl, rfl, hhigh, 1, 60, ⟨fun _ => hfound.position, nofun⟩, ?_,
      fun _ => le_refl _⟩⟩
  · simp [Search.advance, Stepper.signed, hfound.forward, hfound.target]
  · show T + d - 2 * d ≤ line c v s.time
    linarith
  · simp only [Search.advance, Scalar.min_eq, Scalar.max_eq]
    refine hst.reach (hstart.trans hlt.le) hle ?_
    split
    · exact timeTolerance_le_seekTime
    · exact le_max_right _ _

/-! ## Boundary after boundary -/

/-- Steps up at one boundary after the other, from `T` until `T'` is next. -/
inductive Strokes (hit : F → F → Prop) (d : F) : F → List (Step F) → F → Prop
  | nil (T : F) : Strokes hit d T [] T
  | cons {T T' : F} {s : Step F} {rest : List (Step F)} (forward : s.forward = true)
      (position : s.position = T) (strikes : hit T s.time) (strokes : Strokes hit d (T + d) rest T') :
      Strokes hit d T (s :: rest) T'

namespace Strokes

variable {hit hit' : F → F → Prop} {T' T'' : F} {steps more : List (Step F)}

theorem append (h : Strokes hit d T steps T') (h' : Strokes hit d T' more T'') :
    Strokes hit d T (steps ++ more) T'' := by
  induction h with
  | nil => exact h'
  | cons forward position strikes _ ih => exact .cons forward position strikes (ih h')

/-- Each boundary is at least as far as the first. -/
theorem mono (hd : 0 ≤ d) (h : Strokes hit d T steps T') (hhit : ∀ B t, T ≤ B → hit B t → hit' B t) :
    Strokes hit' d T steps T' := by
  induction h with
  | nil => exact .nil _
  | cons forward position strikes _ ih =>
    exact .cons forward position (hhit _ _ (le_refl _) strikes)
      (ih fun B t hB => hhit B t (by linarith))

theorem end_eq (h : Strokes hit d T steps T') : T' = T + steps.length * d := by
  induction h with
  | nil => simp
  | cons _ _ _ _ ih => rw [ih, List.length_cons, Nat.cast_succ]; ring

/-- The last boundary is within what all of them are within. -/
theorem end_le {b : F} (h : Strokes hit d T steps T') (hhit : ∀ B t, hit B t → B ≤ b) (hT : T - d ≤ b) :
    T' - d ≤ b := by
  induction h with
  | nil => exact hT
  | cons _ _ strikes _ ih =>
    have := hhit _ _ strikes
    exact ih (by linarith)

theorem getElem (h : Strokes hit d T steps T') : ∀ (k : Nat) (hk : k < steps.length),
    steps[k].forward = true ∧ steps[k].position = T + k * d ∧ hit (T + k * d) steps[k].time := by
  induction h with
  | nil => intro k hk; exact absurd hk (Nat.not_lt_zero k)
  | @cons T T' s rest forward position strikes _ ih =>
    intro k hk
    cases k with
    | zero => rw [Nat.cast_zero, zero_mul, add_zero]; exact ⟨forward, position, strikes⟩
    | succ k =>
      obtain ⟨h1, h2, h3⟩ := ih k (Nat.lt_of_succ_lt_succ hk)
      have hnext : T + d + k * d = T + (k + 1 : Nat) * d := by rw [Nat.cast_succ]; ring
      rw [hnext] at h2 h3
      exact ⟨h1, h2, h3⟩

end Strokes

theorem climb_hunt (hst : Steady v d start finish)
    (h : Stands start finish a (Climb c v d start finish T) n s) (hn : n < maxIterations) (base : F) :
    (∃ s', hunt (fun t => .ok (line c v t)) base d finish maxIterations s = .found s' ∧
      Crossed c v d start finish a T s') ∨
    ∃ s', hunt (fun t => .ok (line c v t)) base d finish maxIterations s = .ended s' ∧
      s'.forward = true ∧ s'.target = T ∧ line c v finish + timeTolerance < T := by
  rcases hunt_bounded (fun _ _ _ hs hp => hs.climb_unsettled hst hp) base _ n s hn h with
    ⟨s', hs, m, r, hr, hp⟩ | ⟨s', hs, m, hr, hnone⟩
  · exact .inl ⟨s', hs, hr.climb_settled hst hp⟩
  · exact .inr ⟨s', hs, hr.climb_ended hnone⟩

theorem turning_hunt (hst : Steady v d start finish)
    (h : Stands start finish a (Turning c v d start finish x) n s) (hn : n < maxIterations) (base : F) :
    (∃ s', hunt (fun t => .ok (line c v t)) base d finish maxIterations s = .found s' ∧
      Crossed c v d start finish a (x + d) s' ∧ x + d + turnMargin < line c v finish) ∨
    ∃ s', hunt (fun t => .ok (line c v t)) base d finish maxIterations s = .ended s' ∧
      s'.forward = false ∧ s'.target = x - d ∧ line c v finish ≤ x + d + turnMargin := by
  rcases hunt_bounded (fun _ _ _ hs hp => hs.turning_unsettled hst hp) base _ n s hn h with
    ⟨s', hs, m, r, hr, hp⟩ | ⟨s', hs, m, hr, hnone⟩
  · exact .inl ⟨s', hs, hr.turning_settled hst hp⟩
  · exact .inr ⟨s', hs, hr.turning_ended hnone⟩

/-- A climb takes its steps at one boundary after the other until the next one is beyond the range. -/
theorem run_climb (hst : Steady v d start finish) (base : F) : ∀ (fuel n : Nat) (a T : F) (s : Search F)
    (steps : Array (Step F)) (lastStep : Option F),
    Stands start finish a (Climb c v d start finish T) n s → n < maxIterations →
    (∀ l ∈ lastStep, l ≤ base + a) → line c v finish + 2 * d < T + fuel * d →
    ∃ (new : List (Step F)) (s' : Search F),
      (run (fun t => .ok (line c v t)) base d finish fuel s steps lastStep).steps.toList = steps.toList ++ new ∧
      (run (fun t => .ok (line c v t)) base d finish fuel s steps lastStep).outcome = .ok s' ∧
      s'.forward = true ∧ line c v finish + timeTolerance < s'.target ∧
      Strokes (fun T time => Strikes c v start finish T (time - base)) d T new s'.target := by
  intro fuel
  induction fuel with
  | zero =>
    intro n a T s steps lastStep h hn hl hfuel
    -- the step behind the boundary lies in the range, so no range ends this far behind
    have hnear := h.phase.rising.near
    have hend := hst.line_le c (h.ready.last_le.trans (h.ready.low_le_finish))
    rw [Nat.cast_zero, zero_mul] at hfuel
    linarith
  | succ fuel ih =>
    intro n a T s steps lastStep h hn hl hfuel
    rcases climb_hunt hst h hn base with ⟨s', hs, hcross⟩ | ⟨s', hs, hforward, htarget, hend⟩
    · rw [run_found hs (follows_of_le hl (by linarith [hcross.last_lt]))]
      obtain ⟨new, s'', h1, h2, h3, h4, h5⟩ := ih 63 s'.time (T + d) (s'.advance d finish)
        (steps.push ⟨base + s'.time, s'.forward, s'.target⟩) (some (base + s'.time)) (hcross.advance hst)
        (by unfold maxIterations; omega) (by rintro l ⟨⟩; exact le_refl _)
        (by rw [Nat.cast_succ] at hfuel; linarith)
      refine ⟨⟨base + s'.time, s'.forward, s'.target⟩ :: new, s'', by rw [h1]; simp, h2, h3, h4,
        .cons hcross.found.forward hcross.found.target ?_ h5⟩
      rw [add_sub_cancel_left]
      exact hcross.found.strikes
    · rw [run_ended hs]
      exact ⟨[], s', by simp, rfl, hforward, by rw [htarget]; exact hend, by rw [htarget]; exact .nil T⟩

/-- A search that falls takes no step as long as the line stays within the margin, and climbs once it
does not. -/
theorem run_turning (hst : Steady v d start finish) (base : F) (fuel : Nat) (steps : Array (Step F))
    (lastStep : Option F) (h : Stands start finish a (Turning c v d start finish x) n s)
    (hn : n < maxIterations) (hl : ∀ l ∈ lastStep, l ≤ base + a)
    (hfuel : line c v finish < x + fuel * d) :
    ∃ (new : List (Step F)) (s' : Search F),
      (run (fun t => .ok (line c v t)) base d finish (fuel + 1) s steps lastStep).steps.toList =
        steps.toList ++ new ∧
      (run (fun t => .ok (line c v t)) base d finish (fuel + 1) s steps lastStep).outcome = .ok s' ∧
      (line c v finish ≤ x + d + turnMargin ∧ s'.forward = false ∧ s'.target = x - d ∧ new = [] ∨
        x + d + turnMargin < line c v finish ∧ s'.forward = true ∧
        line c v finish + timeTolerance < s'.target ∧
        Strokes (fun T time => Strikes c v start finish T (time - base)) d (x + d) new s'.target) := by
  rcases turning_hunt hst h hn base with ⟨s', hs, hcross, hend⟩ | ⟨s', hs, hforward, htarget, hend⟩
  · rw [run_found hs (follows_of_le hl (by linarith [hcross.last_lt]))]
    obtain ⟨new, s'', h1, h2, h3, h4, h5⟩ := run_climb hst base fuel 63 s'.time (x + d + d)
      (s'.advance d finish) (steps.push ⟨base + s'.time, s'.forward, s'.target⟩) (some (base + s'.time))
      (hcross.advance hst) (by unfold maxIterations; omega) (by rintro l ⟨⟩; exact le_refl _) (by linarith)
    refine ⟨⟨base + s'.time, s'.forward, s'.target⟩ :: new, s'', by rw [h1]; simp, h2, .inr ⟨hend, h3, h4,
      .cons hcross.found.forward hcross.found.target ?_ h5⟩⟩
    rw [add_sub_cancel_left]
    exact hcross.found.strikes
  · rw [run_ended hs]
    exact ⟨[], s', by simp, rfl, .inl ⟨hend, hforward, htarget, rfl⟩⟩

/-! ## From range to range -/

/-- How a stepper stands that was set to `x` and has come to the time `r` along a line: it waits for the
margin to be passed, or its steps have led to the last boundary before the line. -/
inductive Pace (hit : F → F → Prop) (x v d r : F) : Bool → F → List (Step F) → Prop
  | waits (within : line x v r ≤ x + d + turnMargin) : Pace hit x v d r false x []
  | climbs {p : F} {steps : List (Step F)} (beyond : x + d + turnMargin < line x v r)
      (strokes : Strokes hit d (x + d) steps (p + d)) (le_line : p ≤ line x v r + timeTolerance)
      (line_lt : line x v r + timeTolerance < p + d) : Pace hit x v d r true p steps

variable {hit : F → F → Prop} {r r' p : F} {forward : Bool} {steps : List (Step F)}

/-- Steps of one more range lead on from the last boundary. -/
theorem Pace.extend (hst : Steady v d r r') {T T' base : F} {new : List (Step F)}
    (hhit : ∀ B t, T ≤ B → Strikes x v r r' B (t - base) → hit B t)
    (strokes : Strokes hit d (x + d) steps T) (le_line : T - d ≤ line x v r' + timeTolerance)
    (hnew : Strokes (fun B t => Strikes x v r r' B (t - base)) d T new T')
    (beyond : x + d + turnMargin < line x v r') (hend : line x v r' + timeTolerance < T') :
    Pace hit x v d r' true (T' - Stepper.signed d true) (steps ++ new) := by
  have hd := hst.step_pos.le
  have hback : T' - Stepper.signed d true + d = T' := sub_add_cancel T' d
  refine .climbs beyond ?_ (hnew.end_le (fun B t hB => hB.reached) le_line) (by rw [hback]; exact hend)
  rw [hback]
  exact strokes.append (hnew.mono hd hhit)

/-- The search of one more range succeeds and keeps pace with the line. -/
theorem Pace.run (hst : Steady v d r r') (hlt : r < r') (base : F) (fuel : Nat) (old : Array (Step F))
    (lastStep : Option F) (hl : ∀ l ∈ lastStep, l ≤ base + r) (hfuel : line x v r' < x + fuel * d)
    (hhit : ∀ B t, x + d ≤ B → line x v r < B ∨ line x v r ≤ x + d + turnMargin →
      Strikes x v r r' B (t - base) → hit B t)
    (h : Pace hit x v d r forward p steps) :
    ∃ (new : List (Step F)) (s' : Search F),
      (run (fun t => .ok (line x v t)) base d r' (fuel + 1) (.begin p d r r' forward) old lastStep).steps.toList =
        old.toList ++ new ∧
      (run (fun t => .ok (line x v t)) base d r' (fuel + 1) (.begin p d r r' forward) old lastStep).outcome =
        .ok s' ∧
      Pace hit x v d r' s'.forward (s'.target - Stepper.signed d s'.forward) (steps ++ new) := by
  have hε := timeTolerance_pos (F := F)
  have hfine := hst.fine
  have hd := hst.step_pos
  have hrise := hst.line_lt x hlt
  cases h with
  | waits within =>
    have hstart : x ≤ line x v r := by
      have := mul_nonneg hst.speed_pos.le hst.start_nonneg
      unfold line; linarith
    obtain ⟨new, s', h1, h2, ⟨hin, hf, ht, rfl⟩ | ⟨hbeyond, hf, hend, hstrokes⟩⟩ :=
      run_turning hst base fuel old lastStep (begin_turning hst hlt hstart within)
        (by unfold maxIterations; omega) hl hfuel
    · refine ⟨[], s', h1, h2, ?_⟩
      have hback : x - d - Stepper.signed d false = x := by simp [Stepper.signed]
      rw [hf, ht, hback]
      exact .waits hin
    · refine ⟨new, s', h1, h2, ?_⟩
      rw [hf]
      exact .extend hst (fun B t hB => hhit B t hB (.inr within)) (.nil _) (by linarith) hstrokes hbeyond hend
  | climbs beyond strokes le_line line_lt =>
    have hfirst : x ≤ p := by
      have := mul_nonneg (Nat.cast_nonneg' steps.length : (0 : F) ≤ steps.length) hd.le
      linarith [strokes.end_eq]
    have hstands := begin_climb (T := p + d) hst hlt (by linarith) line_lt
    rw [add_sub_cancel_right] at hstands
    obtain ⟨new, s', h1, h2, hf, hend, hstrokes⟩ := run_climb hst base (fuel + 1) 64 r (p + d) _ old lastStep
      hstands (by unfold maxIterations; omega) hl (by rw [Nat.cast_succ]; linarith)
    refine ⟨new, s', h1, h2, ?_⟩
    rw [hf]
    exact .extend hst (fun B t hB => hhit B t (by linarith) (.inl (by linarith))) strokes (by linarith) hstrokes
      (beyond.trans hrise) hend

/-- The steps that have been taken when a range has come to its end. -/
theorem Pace.count (hv : 0 ≤ v) (hr : 0 ≤ r) (h : Pace hit x v d r forward p steps) :
    (v * r ≤ d + turnMargin → steps = []) ∧
    (v * r + timeTolerance < d ∨ d + turnMargin < v * r →
      steps.length * d ≤ v * r + timeTolerance ∧ v * r + timeTolerance < (steps.length + 1) * d) ∧
    ∀ (k : Nat) (hk : k < steps.length), steps[k].forward = true ∧ steps[k].position = x + d + k * d ∧
      hit (x + d + k * d) steps[k].time := by
  have hε := timeTolerance_pos (F := F)
  have hway := mul_nonneg hv hr
  cases h with
  | waits within =>
    unfold line at within
    refine ⟨fun _ => rfl, fun h => ?_, fun k hk => absurd hk (Nat.not_lt_zero k)⟩
    rcases h with h | h
    · simp only [List.length_nil, Nat.cast_zero, zero_mul, zero_add, one_mul]
      exact ⟨by linarith, h⟩
    · exact absurd within (not_le.2 (by linarith))
  | climbs beyond strokes le_line line_lt =>
    unfold line at beyond le_line line_lt
    have hend := strokes.end_eq
    exact ⟨fun h => absurd beyond (not_lt.2 (by linarith)), fun _ => ⟨by linarith, by linarith⟩, strokes.getElem⟩

end Search

end PrinterMotion
