/-
The search for step boundaries stays inside its range. However a position function misleads the secant,
a time is proposed only behind the last step and within the range, a bracket is never empty, and so the
steps of a range follow each other and lie in it.
-/
import PrinterMotion.Proofs.Exact
import PrinterMotion.Proofs.Stepper.Searches

namespace PrinterMotion

variable {F : Type} [Exact F]

/-! ## Times in order -/

/-- Times that follow `a` one after the other and do not pass `b`. -/
def Ascending (a : F) (ts : List F) (b : F) : Prop := (a :: ts).Pairwise (· < ·) ∧ ∀ t ∈ ts, t ≤ b

theorem ascending_nil (a b : F) : Ascending a [] b := ⟨List.pairwise_singleton _ _, nofun⟩

theorem Ascending.mono {a a' b b' : F} {ts : List F} (h : Ascending a ts b) (ha : a' ≤ a) (hb : b ≤ b') :
    Ascending a' ts b' := by
  obtain ⟨h1, h2⟩ := List.pairwise_cons.1 h.1
  exact ⟨List.pairwise_cons.2 ⟨fun t ht => ha.trans_lt (h1 t ht), h2⟩, fun t ht => (h.2 t ht).trans hb⟩

theorem Ascending.cons {a t b : F} {ts : List F} (h : Ascending t ts b) (hat : a < t) (htb : t ≤ b) :
    Ascending a (t :: ts) b := by
  obtain ⟨h1, -⟩ := List.pairwise_cons.1 h.1
  refine ⟨List.pairwise_cons.2 ⟨fun u hu => ?_, h.1⟩, fun u hu => ?_⟩
  · rcases List.mem_cons.1 hu with rfl | hu
    · exact hat
    · exact hat.trans (h1 u hu)
  · rcases List.mem_cons.1 hu with rfl | hu
    · exact htb
    · exact h.2 u hu

theorem Ascending.append {a b c e : F} {ts us : List F} (h : Ascending a ts b) (hbc : b ≤ c) (hac : a ≤ c)
    (hbe : b ≤ e) (h' : Ascending c us e) : Ascending a (ts ++ us) e := by
  obtain ⟨h1, h2⟩ := List.pairwise_cons.1 h.1
  obtain ⟨h3, h4⟩ := List.pairwise_cons.1 h'.1
  refine ⟨List.pairwise_cons.2 ⟨fun t ht => ?_, List.pairwise_append.2 ⟨h2, h4, fun t ht u hu => ?_⟩⟩, fun t ht => ?_⟩
  · rcases List.mem_append.1 ht with ht | ht
    · exact h1 t ht
    · exact hac.trans_lt (h3 t ht)
  · exact (h.2 t ht).trans_lt (hbc.trans_lt (h3 u hu))
  · rcases List.mem_append.1 ht with ht | ht
    · exact (h.2 t ht).trans hbe
    · exact h'.2 t ht

namespace Search

theorem seekTime_pos : (0 : F) < seekTime := by norm_num [seekTime]

theorem timeTolerance_pos : (0 : F) < timeTolerance := by norm_num [timeTolerance]

/-! ## The state between two positions -/

/-- The times of a search are in order: with a bracket the next time lies in it, and without one the
search has come as far as `low` and goes on from there, if any range is left. -/
structure Ready (start finish : F) (s : Search F) : Prop where
  start_le : start ≤ s.last
  last_le : s.last ≤ s.low
  high_le : s.high ≤ finish
  bracket : s.bracketed = true → s.low < s.high
  free : s.bracketed = false → s.low = s.time ∧ (s.low < s.high ∨ s.time = finish)

theorem Ready.low_le_finish {start finish : F} {s : Search F}
    (h : Ready start finish s) : s.low ≤ finish := by
  cases hb : s.bracketed with
  | true => exact (h.bracket hb).le.trans h.high_le
  | false =>
    obtain ⟨hlow, hlt | hend⟩ := h.free hb
    · exact hlt.le.trans h.high_le
    · exact (hlow.trans hend).le

theorem begin_ready (commanded d : F) {start finish : F} (forward : Bool) (h : start < finish) :
    Ready start finish (Search.begin commanded d start finish forward) := by
  refine ⟨le_refl _, le_refl _, ?_, nofun, fun _ => ⟨rfl, .inl ?_⟩⟩
  · simp [Search.begin]
  · have := seekTime_pos (F := F)
    simp only [Search.begin, Scalar.min_eq, lt_min_iff]
    exact ⟨by linarith, h⟩

/-- A search ends where its range does. -/
theorem propose_eq_none {start finish : F} {s : Search F} (hr : Ready start finish s)
    (h : s.propose finish = none) : s.bracketed = false ∧ s.time = finish := by
  simp only [propose] at h
  split at h
  · cases h
  split at h
  · cases h
  rename_i hb
  rw [Bool.not_eq_true] at hb
  split at h
  · rename_i hf
    obtain ⟨hlow, h | h⟩ := hr.free hb
    · exact absurd hf (by rw [← hlow]; exact not_le.2 (h.trans_le hr.high_le))
    · exact ⟨hb, h⟩
  · cases h

/-- What a proposal leaves of the state: the upper end may move on when there is no bracket. -/
structure Proposes (finish : F) (s : Search F) (t : F) (s' : Search F) : Prop where
  low_lt : s.low < t
  le_finish : t ≤ finish
  forward : s'.forward = s.forward
  target : s'.target = s.target
  last : s'.last = s.last
  low : s'.low = s.low
  bracketed : s'.bracketed = s.bracketed
  high_le : s'.high ≤ finish
  bracket : s.bracketed = true → s'.high = s.high ∧ t < s.high
  free : s.bracketed = false → t < s'.high ∨ t = finish

theorem proposes_of_eq {start finish : F} {s s' : Search F} {t : F} (hr : Ready start finish s)
    (h : s.propose finish = some (t, s')) : Proposes finish s t s' := by
  simp only [propose] at h
  split at h
  · rename_i hs
    cases h
    exact ⟨hs.1, (hs.2.trans_le hr.high_le).le, rfl, rfl, rfl, rfl, rfl, hr.high_le, fun _ => ⟨rfl, hs.2⟩,
      fun _ => .inl hs.2⟩
  split at h
  · rename_i hb
    cases h
    have hlt := hr.bracket hb
    have hle := hr.high_le
    have hmid : (0.5 : F) * (s.low + s.high) = (s.low + s.high) / 2 := by norm_num; ring
    rw [hmid]
    exact ⟨by linarith, by linarith, rfl, rfl, rfl, rfl, rfl, hle, fun _ => ⟨rfl, by linarith⟩,
      fun h => absurd hb (by rw [h]; exact Bool.false_ne_true)⟩
  rename_i hb
  rw [Bool.not_eq_true] at hb
  obtain ⟨hlow, hopen⟩ := hr.free hb
  split at h
  · cases h
  rename_i hf
  cases h
  rcases hopen with hlt | h
  · refine ⟨hlt, hr.high_le, rfl, rfl, rfl, rfl, rfl, ?_, fun h => absurd h (by rw [hb]; exact Bool.false_ne_true),
      fun _ => ?_⟩
    · rw [Scalar.min_eq]
      exact min_le_right _ _
    · rcases hr.high_le.lt_or_eq with h | h
      · left
        have := hr.last_le
        simp only [Scalar.min_eq, lt_min_iff]
        exact ⟨by norm_num; linarith, h⟩
      · exact .inr h
  · exact absurd h.ge hf

/-! ## Taking in a position -/

/-- How far a position lies beyond the boundary that the search looks for. -/
def beyond (s : Search F) (p : F) : F := if s.forward then p - s.target else s.target - p

theorem beyond_congr {s s' : Search F} (hf : s'.forward = s.forward) (ht : s'.target = s.target) (p : F) :
    s'.beyond p = s.beyond p := by
  rw [beyond, beyond, hf, ht]

/-- What narrowing never changes. -/
structure Keeps (s s' : Search F) : Prop where
  time : s'.time = s.time
  last : s'.last = s.last

/-- The boundary is behind the position, and ends the bracket. -/
structure Passes (s s' : Search F) : Prop extends Keeps s s' where
  position : 0 < s.beyond s.position
  forward : s'.forward = s.forward
  target : s'.target = s.target
  low : s'.low = s.low
  high : s'.high = s.time
  bracketed : s'.bracketed = true

/-- The stepper has turned, and the boundary behind the last step is next. -/
structure Turns (d : F) (s s' : Search F) : Prop extends Keeps s s' where
  position : s.beyond s.position < -(d + d + turnMargin)
  forward : s'.forward = !s.forward
  target : s'.target = s.target + 2 * Stepper.signed d (!s.forward)
  low : s'.low = s.last
  high : s'.high = s.time
  bracketed : s'.bracketed = true

/-- The boundary is still ahead. -/
structure Closes (d : F) (s s' : Search F) : Prop extends Keeps s s' where
  le_zero : s.beyond s.position ≤ 0
  ge_margin : -(d + d + turnMargin) ≤ s.beyond s.position
  forward : s'.forward = s.forward
  target : s'.target = s.target
  low : s'.low = s.time
  high : s'.high = s.high
  bracketed : s'.bracketed = s.bracketed

theorem narrow_cases (s : Search F) (d : F) :
    Passes s (s.narrow d) ∨ Turns d s (s.narrow d) ∨ Closes d s (s.narrow d) := by
  have hpast : (if s.forward then s.position - s.target else -(s.position - s.target)) =
      s.beyond s.position := by
    unfold beyond; split <;> ring
  have hzero : (0.0 : F) = 0 := Scalar.zero_literal
  unfold narrow
  simp only [hpast, hzero]
  split
  · rename_i h
    left
    split <;> exact ⟨⟨rfl, rfl⟩, h, rfl, rfl, rfl, rfl, rfl⟩
  rename_i h
  split
  · rename_i ht
    right; left
    exact ⟨⟨rfl, rfl⟩, ht, rfl, by norm_num, rfl, rfl, rfl⟩
  · rename_i ht
    right; right
    exact ⟨⟨rfl, rfl⟩, not_lt.1 h, not_lt.1 ht, rfl, rfl, rfl, rfl, rfl⟩

/-- A position settles the crossing if it is on the boundary, or if the bracket has become a point. -/
theorem judge_cases (s : Search F) (d : F) :
    (s.judge d = (true, s) ∧ |s.position - s.target| ≤ positionTolerance) ∨
    (∃ settled, s.judge d = (settled, s.narrow d) ∧
      (settled = true ↔ (s.narrow d).bracketed = true ∧
        (s.narrow d).high - (s.narrow d).low ≤ timeTolerance)) := by
  unfold judge
  rw [Scalar.abs_eq]
  split
  · exact .inr ⟨_, rfl, by simp⟩
  · exact .inl ⟨rfl, not_lt.1 (by assumption)⟩

/-! ## One position after the other -/

variable {eval : F → Except (StepError F) F} {d start finish : F} {s s' : Search F}

/-- A round that does not settle the crossing leaves a search that goes on. -/
theorem Probes.ready (hr : Ready start finish s) (h : Probes eval d finish s false s') :
    Ready start finish s' ∧ s'.last = s.last := by
  obtain ⟨t, q, p, hp, -, hj⟩ := h
  have hq := proposes_of_eq hr hp
  rcases judge_cases (q.note t p) d with ⟨hs, -⟩ | ⟨settled, hs, -⟩ <;> rw [hs] at hj <;> cases hj
  have hlow := hr.last_le
  rcases narrow_cases (q.note t p) d with hn | hn | hn
  · refine ⟨⟨?_, ?_, ?_, fun _ => ?_, fun hb => ?_⟩, hn.last.trans hq.last⟩
    · rw [hn.last]; exact hq.last.symm ▸ hr.start_le
    · rw [hn.last, hn.low]; exact (hq.last.trans_le hlow).trans hq.low.ge
    · rw [hn.high]; exact hq.le_finish
    · rw [hn.low, hn.high]; exact hq.low.trans_lt hq.low_lt
    · rw [hn.bracketed] at hb; cases hb
  · refine ⟨⟨?_, ?_, ?_, fun _ => ?_, fun hb => ?_⟩, hn.last.trans hq.last⟩
    · rw [hn.last]; exact hq.last.symm ▸ hr.start_le
    · rw [hn.last, hn.low]
    · rw [hn.high]; exact hq.le_finish
    · rw [hn.low, hn.high]; exact hq.last.trans_lt (hlow.trans_lt hq.low_lt)
    · rw [hn.bracketed] at hb; cases hb
  · refine ⟨⟨?_, ?_, ?_, fun hb => ?_, fun hb => ⟨?_, ?_⟩⟩, hn.last.trans hq.last⟩
    · rw [hn.last]; exact hq.last.symm ▸ hr.start_le
    · rw [hn.last, hn.low]; exact (hq.last.trans_le hlow).trans hq.low_lt.le
    · rw [hn.high]; exact hq.high_le
    · rw [hn.bracketed] at hb
      obtain ⟨hhigh, hlt⟩ := hq.bracket (hq.bracketed.symm.trans hb)
      rw [hn.low, hn.high]
      exact hlt.trans_eq hhigh.symm
    · rw [hn.low, hn.time]
    · rw [hn.bracketed] at hb
      rw [hn.low, hn.high, hn.time]
      exact hq.free (hq.bracketed.symm.trans hb)

theorem Probes.bracketed {settled : Bool} (hr : Ready start finish s)
    (h : Probes eval d finish s settled s') (hb : s.bracketed = true) : s'.bracketed = true := by
  obtain ⟨t, q, p, hp, -, hj⟩ := h
  have hq : (q.note t p).bracketed = true := (proposes_of_eq hr hp).bracketed.trans hb
  rcases judge_cases (q.note t p) d with ⟨hs, -⟩ | ⟨settled, hs, -⟩ <;> rw [hs] at hj <;> cases hj
  · exact hq
  rcases narrow_cases (q.note t p) d with hn | hn | hn
  · exact hn.bracketed
  · exact hn.bracketed
  · exact hn.bracketed.trans hq

/-- A crossing is found behind the step before it and within the range. -/
theorem Probes.found (hr : Ready start finish s) (h : Probes eval d finish s true s') :
    s.last < s'.time ∧ s'.time ≤ finish ∧ s'.last = s.last := by
  obtain ⟨t, q, p, hp, -, hj⟩ := h
  have hq := proposes_of_eq hr hp
  have hlt := hr.last_le.trans_lt hq.low_lt
  rcases judge_cases (q.note t p) d with ⟨hs, -⟩ | ⟨settled, hs, -⟩ <;> rw [hs] at hj <;> cases hj
  · exact ⟨hlt, hq.le_finish, hq.last⟩
  · have hk : Keeps (q.note t p) ((q.note t p).narrow d) := by
      rcases narrow_cases (q.note t p) d with hn | hn | hn <;> exact hn.toKeeps
    rw [hk.time, hk.last]
    exact ⟨hlt, hq.le_finish, hq.last⟩

/-- Behind a crossing the search goes on from there. -/
theorem advance_ready (hr : start ≤ s.last) (hlt : s.last < s.time) (hle : s.time ≤ finish) :
    Ready start finish (s.advance d finish) := by
  have hstride : (0 : F) < seekTime ∧ (0 : F) < timeTolerance := ⟨seekTime_pos, timeTolerance_pos⟩
  refine ⟨hr.trans hlt.le, le_refl _, ?_, nofun, fun _ => ⟨rfl, ?_⟩⟩
  · simp [Search.advance]
  · rcases hle.lt_or_eq with h | h
    · left
      simp only [Search.advance, Scalar.min_eq, Scalar.max_eq, lt_min_iff]
      refine ⟨?_, h⟩
      split
      · linarith [hstride.1]
      · linarith [hstride.2, le_max_right (1.5 * (s.time - s.last)) timeTolerance]
    · exact .inr h

/-! ## The search for one boundary -/

/-- Rounds that lower a bound lead to an end before the positions that may be taken are used up. -/
theorem hunt_bounded {P : F → F} {I : Nat → Search F → Prop}
    (step : ∀ n s s', I n s → Probes (fun t => .ok (P t)) d finish s false s' → ∃ m < n, I m s') (base : F) :
    ∀ (budget n : Nat) (s : Search F), n < budget → I n s →
      (∃ s', hunt (fun t => .ok (P t)) base d finish budget s = .found s' ∧
        ∃ m r, I m r ∧ Probes (fun t => .ok (P t)) d finish r true s') ∨
      ∃ s', hunt (fun t => .ok (P t)) base d finish budget s = .ended s' ∧
        ∃ m, I m s' ∧ s'.propose finish = none := by
  intro budget
  induction budget with
  | zero => intro n s hn _; omega
  | succ budget ih =>
    intro n s hn hs
    unfold hunt
    cases hp : s.propose finish with
    | none => exact .inr ⟨s, rfl, n, hs, hp⟩
    | some tq =>
      obtain ⟨t, q⟩ := tq
      obtain ⟨settled, s', hj⟩ : ∃ settled s', (q.note t (P t)).judge d = (settled, s') := ⟨_, _, rfl⟩
      simp only [hj]
      cases settled with
      | true => exact .inl ⟨s', rfl, n, s, hs, t, q, P t, hp, rfl, hj⟩
      | false =>
        obtain ⟨m, hm, hs'⟩ := step n s s' hs ⟨t, q, P t, hp, rfl, hj⟩
        exact ih m s' (by omega) hs'

/-! ## The search of a range -/

theorem follows_of_le {time a : F} {lastStep : Option F} (h : ∀ l ∈ lastStep, l ≤ a) (ha : a < time) :
    follows time lastStep = true := by
  cases lastStep with
  | none => rfl
  | some l => simpa [follows] using (h l rfl).trans_lt ha

/-- The steps of a range come one after the other, behind the last step and within the range, and the
latest one is remembered, also when a position cannot be had. -/
theorem run_ascending (heval : ∀ t, InOrder (eval t)) (base : F) : ∀ (fuel : Nat) (s : Search F)
    (steps : Array (Step F)) (lastStep : Option F), Ready start finish s → (∀ l ∈ lastStep, l ≤ base + s.last) →
      ∃ new : List (Step F),
        (run eval base d finish fuel s steps lastStep).steps.toList = steps.toList ++ new ∧
        Ascending (base + s.last) (new.map Step.time) (base + finish) ∧
        (run eval base d finish fuel s steps lastStep).lastStep =
          (new.map Step.time).getLast?.or lastStep ∧
        InOrder (run eval base d finish fuel s steps lastStep).outcome := by
  intro fuel
  induction fuel with
  | zero =>
    intro s steps lastStep hr hl
    exact ⟨[], by simp [run], ascending_nil _ _, rfl, fun t l h => by cases h⟩
  | succ fuel ih =>
    intro s steps lastStep hr hl
    have invariant : ∀ r r', Ready start finish r ∧ r.last = s.last →
        Probes eval d finish r false r' → Ready start finish r' ∧ r'.last = s.last :=
      fun r r' hr hp => ⟨(hp.ready hr.1).1, (hp.ready hr.1).2.trans hr.2⟩
    unfold run
    rcases hunt_cases invariant base maxIterations s ⟨hr, rfl⟩ with
      ⟨s', hs, r, ⟨hready, hlast⟩, hp⟩ | ⟨s', hs, -⟩ | ⟨t, n, hs⟩ | ⟨t, e, he, hs⟩
    · obtain ⟨hlt, hle, hkeep⟩ := hp.found hready
      rw [hlast] at hlt
      have hfollows : follows (base + s'.time) lastStep = true :=
        follows_of_le hl (by linarith)
      have hadv : Ready start finish (s'.advance d finish) :=
        advance_ready (hready.start_le.trans hkeep.ge) (by rw [hkeep, hlast]; exact hlt) hle
      obtain ⟨new, h1, h2, h3, h4⟩ := ih (s'.advance d finish)
        (steps.push ⟨base + s'.time, s'.forward, s'.target⟩) (some (base + s'.time)) hadv
        (by rintro l ⟨⟩; exact le_refl _)
      simp only [hs, hfollows, if_true]
      refine ⟨⟨base + s'.time, s'.forward, s'.target⟩ :: new, ?_, ?_, ?_, h4⟩
      · rw [h1]; simp
      · exact h2.cons (show base + s.last < base + s'.time by linarith)
          (show base + s'.time ≤ base + finish by linarith)
      · rw [h3, List.map_cons, List.getLast?_cons]
        cases (new.map Step.time).getLast? <;> rfl
    · simp only [hs]
      exact ⟨[], by simp, ascending_nil _ _, rfl, fun t l h => by cases h⟩
    · simp only [hs]
      exact ⟨[], by simp, ascending_nil _ _, rfl, fun t l h => by cases h⟩
    · simp only [hs]
      exact ⟨[], by simp, ascending_nil _ _, rfl, fun t' l h => heval t t' l (by rw [he, Except.error.inj h])⟩

/-! ## What a search reads -/

/-- The search for one boundary reads positions in its range only. -/
theorem hunt_congr {eval' : F → Except (StepError F) F}
    (h : ∀ t, start < t → t ≤ finish → eval t = eval' t) (base : F) :
    ∀ (budget : Nat) (s : Search F), Ready start finish s →
      hunt eval base d finish budget s = hunt eval' base d finish budget s := by
  intro budget
  induction budget with
  | zero =>
    intro s _
    unfold hunt
    cases s.propose finish <;> rfl
  | succ budget ih =>
    intro s hr
    unfold hunt
    cases hp : s.propose finish with
    | none => rfl
    | some tq =>
      obtain ⟨t, q⟩ := tq
      have hq := proposes_of_eq hr hp
      have heq : eval t = eval' t :=
        h t ((hr.start_le.trans hr.last_le).trans_lt hq.low_lt) hq.le_finish
      simp only [← heq]
      cases he : eval t with
      | error e => rfl
      | ok p =>
        obtain ⟨settled, s', hj⟩ : ∃ settled s', (q.note t p).judge d = (settled, s') := ⟨_, _, rfl⟩
        simp only [hj]
        cases settled with
        | true => rfl
        | false => exact ih s' (Probes.ready hr ⟨t, q, p, hp, he, hj⟩).1

/-- So does the search of the whole range. -/
theorem run_congr {eval' : F → Except (StepError F) F}
    (h : ∀ t, start < t → t ≤ finish → eval t = eval' t) (base : F) :
    ∀ (fuel : Nat) (s : Search F) (steps : Array (Step F)) (lastStep : Option F), Ready start finish s →
      run eval base d finish fuel s steps lastStep = run eval' base d finish fuel s steps lastStep := by
  intro fuel
  induction fuel with
  | zero => intros; rfl
  | succ fuel ih =>
    intro s steps lastStep hr
    unfold run
    rw [← hunt_congr h base maxIterations s hr]
    have ready : ∀ r r', Ready start finish r → Probes eval d finish r false r' → Ready start finish r' :=
      fun r r' hr hp => (hp.ready hr).1
    rcases hunt_cases ready base maxIterations s hr with
      ⟨s', hs, r, hready, hp⟩ | ⟨s', hs, -⟩ | ⟨t, n, hs⟩ | ⟨t, e, -, hs⟩ <;> simp only [hs]
    obtain ⟨hlt, hle, hkeep⟩ := hp.found hready
    have hadv : Ready start finish (s'.advance d finish) :=
      advance_ready (hready.start_le.trans hkeep.ge) (by rw [hkeep]; exact hlt) hle
    split
    · exact ih _ _ _ hadv
    · rfl

end Search

end PrinterMotion
