/-
The search of a range ends. Its loop stops a search for one boundary that takes too many positions, but it
does not count the steps, so that it ends rests on the steps themselves. What is left to do is measured by how
far the model is from the commanded position and how far it can still move in the range. Each step uses up
half a step length of it or more: a step on its boundary, as the model has come there from the boundary before,
and a step behind its boundary, as the commanded position catches up.
-/
import PrinterMotion.Proofs.Stepper.Account
import PrinterMotion.Proofs.Stepper.Tracking

namespace PrinterMotion

variable {F : Type} [Exact F]

namespace Search

/-! ## The loop -/

/-- The search of a range between two positions. -/
structure Loop (F : Type) where
  search : Search F
  /-- How many positions were taken since the last step. -/
  taken : Nat
  /-- How many positions were taken for each step before. -/
  counts : List Nat
  steps : Array (Step F)
  lastStep : Option F

/-- The loop in front of the first position. -/
def Loop.begin (s : Search F) (steps : Array (Step F)) (lastStep : Option F) : Loop F := ⟨s, 0, [], steps, lastStep⟩

variable (eval : F → Except (StepError F) F) (base d finish : F)

/-- One pass of the loop: it takes one position and goes on, or it ends. Nothing limits the number of passes. -/
def Loop.pass (l : Loop F) : Loop F ⊕ Result F :=
  match l.search.propose finish with
  | none => .inr ⟨l.steps, l.lastStep, .ok l.search⟩
  | some (t, proposed) =>
    if l.taken = maxIterations then
      .inr ⟨l.steps, l.lastStep, .error (.notConverged (base + l.search.time) (maxIterations + 1))⟩
    else
      match eval t with
      | .error e => .inr ⟨l.steps, l.lastStep, .error e⟩
      | .ok p =>
        let (settled, s) := (proposed.note t p).judge d
        if settled then
          let time := base + s.time
          if follows time l.lastStep then
            .inl ⟨s.advance d finish, 0, l.counts ++ [l.taken + 1], l.steps.push ⟨time, s.forward, s.target⟩, some time⟩
          else .inr ⟨l.steps, l.lastStep, .error (.outOfOrder time (l.lastStep.getD time))⟩
        else .inl { l with search := s, taken := l.taken + 1 }

/-- The loop after a number of passes, or what it has ended with. -/
def Loop.after : Nat → Loop F → Loop F ⊕ Result F
  | 0, l => .inl l
  | n + 1, l =>
    match l.pass eval base d finish with
    | .inl l' => after n l'
    | .inr r => .inr r

variable {eval base d finish}

/-- What a pass can do. -/
inductive Loop.Passes (eval : F → Except (StepError F) F) (base d finish : F) (l : Loop F) :
    Loop F ⊕ Result F → Prop
  | ended (h : l.search.propose finish = none) : Passes eval base d finish l (.inr ⟨l.steps, l.lastStep, .ok l.search⟩)
  | exhausted (h : l.taken = maxIterations) : Passes eval base d finish l
      (.inr ⟨l.steps, l.lastStep, .error (.notConverged (base + l.search.time) (maxIterations + 1))⟩)
  | failed {t : F} {e : StepError F} (h : eval t = .error e) : Passes eval base d finish l
      (.inr ⟨l.steps, l.lastStep, .error e⟩)
  | overtaken {time last : F} : Passes eval base d finish l (.inr ⟨l.steps, l.lastStep, .error (.outOfOrder time last)⟩)
  | narrowed {s : Search F} (h : Probes eval d finish l.search false s) (ht : l.taken ≠ maxIterations) :
      Passes eval base d finish l (.inl { l with search := s, taken := l.taken + 1 })
  | stepped {s : Search F} (h : Probes eval d finish l.search true s) (ht : l.taken ≠ maxIterations) :
      Passes eval base d finish l (.inl ⟨s.advance d finish, 0, l.counts ++ [l.taken + 1],
        l.steps.push ⟨base + s.time, s.forward, s.target⟩, some (base + s.time)⟩)

theorem Loop.pass_passes (eval : F → Except (StepError F) F) (base d finish : F) (l : Loop F) :
    l.Passes eval base d finish (l.pass eval base d finish) := by
  unfold pass
  cases hp : l.search.propose finish with
  | none => exact .ended hp
  | some tq =>
    obtain ⟨t, q⟩ := tq
    by_cases ht : l.taken = maxIterations
    · simp only [if_pos ht]
      exact .exhausted ht
    simp only [if_neg ht]
    cases he : eval t with
    | error e => exact .failed he
    | ok p =>
      obtain ⟨settled, s, hj⟩ : ∃ settled s, (q.note t p).judge d = (settled, s) := ⟨_, _, rfl⟩
      simp only [hj]
      cases settled with
      | false => exact .narrowed ⟨t, q, p, hp, he, hj⟩ ht
      | true =>
        by_cases hf : follows (base + s.time) l.lastStep = true
        · simp only [hf, if_true]
          exact .stepped ⟨t, q, p, hp, he, hj⟩ ht
        · simp only [if_true, if_neg hf]
          exact .overtaken

/-- What every pass keeps, and counts on, the loop has as long as it goes on. -/
theorem Loop.after_keeps {I : Nat → Loop F → Prop}
    (step : ∀ m l l', I m l → l.pass eval base d finish = .inl l' → I (m + 1) l') :
    ∀ (n : Nat) {m : Nat} {l l' : Loop F}, I m l → l.after eval base d finish n = .inl l' → I (m + n) l'
  | 0, _, _, _, h, ha => by
    cases ha
    exact h
  | n + 1, m, l, l', h, ha => by
    rw [after] at ha
    cases hp : l.pass eval base d finish with
    | inl l₁ =>
      rw [hp] at ha
      rw [← Nat.succ_add_eq_add_succ]
      exact after_keeps step n (step m l l₁ h hp) ha
    | inr r =>
      rw [hp] at ha
      cases ha

/-- The loop ends with one last pass. -/
theorem Loop.after_last : ∀ (n : Nat) {l : Loop F} {r : Result F}, l.after eval base d finish n = .inr r →
    ∃ m l', l.after eval base d finish m = .inl l' ∧ l'.pass eval base d finish = .inr r ∧
      l.after eval base d finish (m + 1) = .inr r
  | 0, _, _, h => by cases h
  | n + 1, l, r, h => by
    rw [after] at h
    cases hp : l.pass eval base d finish with
    | inl l₁ =>
      rw [hp] at h
      obtain ⟨m, l', ha, hl, hr⟩ := after_last n h
      exact ⟨m + 1, l', by rw [after, hp]; exact ha, hl, by rw [after, hp]; exact hr⟩
    | inr r' =>
      rw [hp] at h
      cases h
      exact ⟨0, l, rfl, hp, by rw [after, hp]⟩

/-! ## Counting the positions -/

/-- The loop after `m` positions, with the steps it has found behind `old` others. Each position belongs to one step, or
to the one that is looked for, and none of them takes too many. -/
structure Loop.Counted (old m : Nat) (l : Loop F) : Prop where
  steps : l.steps.size = old + l.counts.length
  positions : l.counts.sum + l.taken = m
  counts_le : ∀ count ∈ l.counts, count ≤ maxIterations
  taken_le : l.taken ≤ maxIterations

omit [Exact F] in
theorem Loop.begin_counted (s : Search F) (steps : Array (Step F)) (lastStep : Option F) :
    (Loop.begin s steps lastStep).Counted steps.size 0 := ⟨rfl, rfl, nofun, Nat.zero_le _⟩

theorem Loop.Counted.pass {old m : Nat} {l l' : Loop F} (h : l.Counted old m)
    (hp : l.pass eval base d finish = .inl l') : l'.Counted old (m + 1) := by
  have hcases := l.pass_passes eval base d finish
  rw [hp] at hcases
  obtain ⟨steps, positions, counts_le, taken_le⟩ := h
  cases hcases with
  | narrowed _ hne =>
    exact ⟨steps, congrArg Nat.succ positions, counts_le, Nat.lt_of_le_of_ne taken_le hne⟩
  | stepped _ hne =>
    refine ⟨?_, ?_, fun count hcount => ?_, Nat.zero_le _⟩
    · simp only [Array.size_push, List.length_append, List.length_singleton, steps]
      omega
    · simp only [List.sum_append, List.sum_singleton]
      omega
    · rcases List.mem_append.1 hcount with hcount | hcount
      · exact counts_le count hcount
      · rw [List.mem_singleton.1 hcount]
        exact Nat.lt_of_le_of_ne taken_le hne

omit [Exact F] in
theorem Loop.Counted.positions_le {old m : Nat} {l : Loop F} (h : l.Counted old m) :
    m ≤ maxIterations * (l.counts.length + 1) := by
  have hsum := List.sum_le_card_nsmul l.counts maxIterations h.counts_le
  rw [smul_eq_mul, Nat.mul_comm] at hsum
  rw [← h.positions, Nat.mul_succ]
  exact Nat.add_le_add hsum h.taken_le

/-! ## The loop and the bounded search -/

/-- The bounded search that goes on where the loop is, with a number of steps left. -/
def Loop.bounded (eval : F → Except (StepError F) F) (base d finish : F) (fuel : Nat) (l : Loop F) : Result F :=
  match hunt eval base d finish (maxIterations - l.taken) l.search with
  | .ended s => ⟨l.steps, l.lastStep, .ok s⟩
  | .failed e => ⟨l.steps, l.lastStep, .error e⟩
  | .found s =>
    let time := base + s.time
    if follows time l.lastStep then
      run eval base d finish fuel (s.advance d finish) (l.steps.push ⟨time, s.forward, s.target⟩) (some time)
    else ⟨l.steps, l.lastStep, .error (.outOfOrder time (l.lastStep.getD time))⟩

theorem Loop.run_succ (fuel : Nat) (s : Search F) (counts : List Nat) (steps : Array (Step F)) (lastStep : Option F) :
    run eval base d finish (fuel + 1) s steps lastStep =
      Loop.bounded eval base d finish fuel ⟨s, 0, counts, steps, lastStep⟩ := by
  unfold run Loop.bounded
  rfl

/-- The bounded search does what a pass does. -/
theorem Loop.bounded_eq (fuel : Nat) (l : Loop F) (ht : l.taken ≤ maxIterations) :
    l.bounded eval base d finish fuel =
      match l.pass eval base d finish with
      | .inr r => r
      | .inl l' => if l'.taken = 0 then run eval base d finish fuel l'.search l'.steps l'.lastStep
        else l'.bounded eval base d finish fuel := by
  unfold pass
  obtain ⟨budget, hbudget⟩ : ∃ budget, maxIterations - l.taken = budget := ⟨_, rfl⟩
  conv_lhs => unfold bounded
  rw [hbudget]
  unfold hunt
  cases hp : l.search.propose finish with
  | none => rfl
  | some tq =>
    obtain ⟨t, q⟩ := tq
    cases budget with
    | zero =>
      simp only [if_pos (show l.taken = maxIterations by omega)]
    | succ budget =>
      simp only [if_neg (show l.taken ≠ maxIterations by omega)]
      cases he : eval t with
      | error e => rfl
      | ok p =>
        obtain ⟨settled, s, hj⟩ : ∃ settled s, (q.note t p).judge d = (settled, s) := ⟨_, _, rfl⟩
        simp only [hj]
        cases settled with
        | false =>
          simp only [Bool.false_eq_true, if_false, if_neg (Nat.succ_ne_zero l.taken)]
          unfold bounded
          simp only [show maxIterations - (l.taken + 1) = budget by omega]
        | true =>
          simp only [if_true]
          by_cases hf : follows (base + s.time) l.lastStep = true
          · simp only [hf, if_true]
          · simp only [if_neg hf]

theorem Loop.steps_le : ∀ (n : Nat) {l : Loop F} {r : Result F}, l.after eval base d finish n = .inr r →
    l.steps.size ≤ r.steps.size
  | 0, _, _, h => by cases h
  | n + 1, l, r, h => by
    have hpass := l.pass_passes eval base d finish
    rw [after] at h
    generalize l.pass eval base d finish = result at hpass h
    cases hpass with
    | ended | exhausted | failed | overtaken =>
      cases h
      exact le_rfl
    | narrowed =>
      have hmore := steps_le n h
      exact hmore
    | stepped =>
      have hmore := steps_le n h
      rw [Array.size_push] at hmore
      exact (Nat.le_succ _).trans hmore

/-- With more steps left than the loop finds, the bounded search ends as the loop does. -/
theorem Loop.bounded_of_after : ∀ (n fuel : Nat) {l : Loop F} {r : Result F}, l.taken ≤ maxIterations →
    l.after eval base d finish n = .inr r → r.steps.size ≤ l.steps.size + fuel → l.bounded eval base d finish fuel = r
  | 0, _, _, _, _, h, _ => by cases h
  | n + 1, fuel, l, r, ht, h, hfuel => by
    have hpass := l.pass_passes eval base d finish
    rw [bounded_eq fuel l ht]
    rw [after] at h
    generalize l.pass eval base d finish = result at hpass h ⊢
    cases hpass with
    | ended | exhausted | failed | overtaken =>
      cases h
      rfl
    | narrowed hp hne =>
      simp only [if_neg (Nat.succ_ne_zero l.taken)] at h ⊢
      exact bounded_of_after n fuel (Nat.lt_of_le_of_ne ht hne) h hfuel
    | stepped hp hne =>
      -- one step more is found, so at least one was left
      simp only at h
      have hmore := steps_le n h
      simp only [Array.size_push] at hmore
      obtain ⟨fuel, rfl⟩ : ∃ k, fuel = k + 1 := ⟨fuel - 1, by omega⟩
      simp only [if_true]
      rw [run_succ fuel _ (l.counts ++ [l.taken + 1])]
      exact bounded_of_after n fuel (Nat.zero_le _) h (by simp only [Array.size_push]; omega)

/-! ## What is left of a range -/

/-- How far the model is from the commanded position `a` at the last step, and how far it can still move. -/
def left (P : F → F) (speed finish a : F) (s : Search F) : F := |P s.last - a| + speed * (finish - s.last)

/-- A position that changes at most at a speed within a range. -/
def Slow (P : F → F) (start finish speed : F) : Prop :=
  ∀ x y, start ≤ x → x ≤ y → y ≤ finish → |P y - P x| ≤ speed * (y - x)

variable {P : F → F} {start speed a : F} {s s' : Search F}

theorem Slow.nonneg (h : Slow P start finish speed) (hlt : start < finish) : 0 ≤ speed :=
  nonneg_of_mul_nonneg_left ((abs_nonneg _).trans (h start finish le_rfl hlt.le le_rfl)) (sub_pos.2 hlt)

theorem abs_beyond (s : Search F) (x : F) : |s.beyond x| = |x - s.target| := by
  unfold beyond
  split
  · rfl
  · exact abs_sub_comm _ _

/-- The boundary is one step length from the commanded position. -/
theorem Ahead.abs_beyond_add (h : Ahead d a s) (x : F) : |s.beyond x + d| = |x - a| := by
  unfold Ahead Stepper.signed at h
  unfold beyond
  rw [h]
  split
  · congr 1
    ring
  · rw [abs_sub_comm x a]
    congr 1
    ring

/-- Where a step is found, the model is beyond the boundary or hardly off it. -/
theorem Probes.found_beyond (heval : Evaluates P eval) (hr : Ready start finish s) (hs : Passed P s)
    (hspeed : 0 ≤ speed) (hP : Slow P start finish speed) (h : Probes eval d finish s true s') :
    0 < s'.beyond (P s'.time) ∨ |s'.beyond (P s'.time)| ≤ (1 + speed) * timeTolerance := by
  obtain ⟨t, q, p, hp, he, hj⟩ := h
  obtain rfl := heval t p he
  have hq := proposes_of_eq hr hp
  have hε := timeTolerance_pos (F := F)
  have hslow := mul_nonneg hspeed hε.le
  have hwide : (1 + speed) * timeTolerance = timeTolerance + speed * timeTolerance := by ring
  rcases judge_cases (q.note t (P t)) d with ⟨hs', hnear⟩ | ⟨settled, hs', hset⟩ <;> rw [hs'] at hj <;> cases hj
  · right
    rw [abs_beyond, hwide]
    rw [positionTolerance_eq] at hnear
    exact hnear.trans (by linarith)
  obtain ⟨hb, hpoint⟩ := hset.1 rfl
  rcases narrow_cases (q.note t (P t)) d with hn | hn | hn
  · left
    rw [beyond_congr hn.forward hn.target, hn.time]
    exact hn.position
  · left
    rw [hn.time]
    exact hn.beyond_pos rfl
  · -- the bracket is a point, and the boundary is passed at its upper end
    right
    have hbeyond : ∀ x, ((q.note t (P t)).narrow d).beyond x = s.beyond x :=
      beyond_congr (hn.forward.trans hq.forward) (hn.target.trans hq.target)
    have hbehind : s.beyond (P t) ≤ 0 := by
      rw [← hbeyond, beyond_congr hn.forward hn.target]
      exact hn.le_zero
    have hb' : s.bracketed = true := (hn.bracketed.trans hq.bracketed).symm.trans hb
    obtain ⟨hhigh, hlt⟩ := hq.bracket hb'
    have hpassed := hs hb'
    rw [hn.high, hn.low] at hpoint
    change q.high - t ≤ timeTolerance at hpoint
    rw [hhigh] at hpoint
    have hmove : s.beyond (P s.high) - s.beyond (P t) ≤ |P s.high - P t| := by
      unfold beyond
      split
      · linarith [le_abs_self (P s.high - P t)]
      · linarith [neg_le_abs (P s.high - P t)]
    have hclose : |P s.high - P t| ≤ speed * (s.high - t) :=
      hP t s.high (hr.start_le.trans (hr.last_le.trans hq.low_lt.le)) hlt.le hr.high_le
    have hshort := mul_le_mul_of_nonneg_left hpoint hspeed
    have htime : ((q.note t (P t)).narrow d).time = t := hn.time
    rw [htime, hbeyond, abs_of_nonpos hbehind, hwide]
    linarith

/-- A step uses up half a step length or more of what is left. -/
theorem Probes.left_advance (heval : Evaluates P eval) (hd : 4 * (1 + speed) * timeTolerance ≤ d)
    (hr : Ready start finish s) (hs : Passed P s) (ha : Ahead d a s) (hspeed : 0 ≤ speed)
    (hP : Slow P start finish speed) (h : Probes eval d finish s true s') :
    (s'.advance d finish).left P speed finish s'.target + d / 2 ≤ s.left P speed finish a := by
  obtain ⟨hlt, hle, -⟩ := h.found hr
  have hmove := hP s.last s'.time hr.start_le hlt.le hle
  have hreach : |P s'.time - a| ≤ |P s.last - a| + speed * (s'.time - s.last) := by
    have := abs_sub_le (P s'.time) (P s.last) a
    linarith
  have hfar : |s'.beyond (P s'.time) + d| = |P s'.time - a| := (h.ahead (Scalar.isFinite_eq d) ha).abs_beyond_add _
  have hnear : |s'.beyond (P s'.time)| + d / 2 ≤ |P s'.time - a| := by
    rw [← hfar]
    have hdpos : 0 ≤ d := le_trans (by have := timeTolerance_pos (F := F); positivity) hd
    rcases h.found_beyond heval hr hs hspeed hP with hpast | hnear
    · rw [abs_of_pos hpast]
      linarith [le_abs_self (s'.beyond (P s'.time) + d)]
    · linarith [le_abs_self (s'.beyond (P s'.time) + d), neg_abs_le (s'.beyond (P s'.time))]
  have hsplit : speed * (finish - s.last) = speed * (s'.time - s.last) + speed * (finish - s'.time) := by ring
  rw [abs_beyond] at hnear
  show |P s'.time - s'.target| + speed * (finish - s'.time) + d / 2 ≤ |P s.last - a| + speed * (finish - s.last)
  linarith

/-! ## The end of a range -/

/-- The search of the loop stands in the range, and each step is paid by half a step length of what was left in the
beginning. -/
structure Loop.Paid (P : F → F) (d start finish speed total : F) (l : Loop F) : Prop where
  ready : Ready start finish l.search
  passed : Passed P l.search
  paid : ∃ a, Ahead d a l.search ∧ l.counts.length * d + 2 * l.search.left P speed finish a ≤ 2 * total

theorem Loop.begin_paid (P : F → F) (speed commanded d : F) (forward : Bool) (steps : Array (Step F))
    (lastStep : Option F) (hlt : start < finish) :
    (Loop.begin (.begin commanded d start finish forward) steps lastStep).Paid P d start finish speed
      (|P start - commanded| + speed * (finish - start)) :=
  ⟨begin_ready commanded d forward hlt, nofun, ⟨commanded, rfl, by simp [Loop.begin, left, Search.begin]⟩⟩

variable {total base : F} {l l' : Loop F}

theorem Loop.Paid.pass (heval : Evaluates P eval) (hd : 4 * (1 + speed) * timeTolerance ≤ d) (hspeed : 0 ≤ speed)
    (hP : Slow P start finish speed) (h : l.Paid P d start finish speed total)
    (hpass : l.pass eval base d finish = .inl l') : l'.Paid P d start finish speed total := by
  have hcases := l.pass_passes eval base d finish
  rw [hpass] at hcases
  obtain ⟨hready, hpassed, a, ha, hpaid⟩ := h
  cases hcases with
  | narrowed hprobe =>
    obtain ⟨hready', hlast⟩ := hprobe.ready hready
    refine ⟨hready', hprobe.passed heval hready hpassed, a, hprobe.ahead (Scalar.isFinite_eq d) ha, ?_⟩
    unfold left at hpaid ⊢
    rw [hlast]
    exact hpaid
  | stepped hprobe =>
    obtain ⟨hlt, hle, hlast⟩ := hprobe.found hready
    have hless := hprobe.left_advance heval hd hready hpassed ha hspeed hP
    refine ⟨advance_ready (hready.start_le.trans hlast.ge) (hlast.trans_lt hlt) hle, nofun, _, advance_ahead _, ?_⟩
    simp only [List.length_append, List.length_singleton, Nat.cast_add, Nat.cast_one]
    linarith

/-- What is left is no less than nothing, so the steps are bounded. -/
theorem Loop.Paid.steps_le (hspeed : 0 ≤ speed) (h : l.Paid P d start finish speed total) :
    l.counts.length * d ≤ 2 * total := by
  obtain ⟨a, -, hpaid⟩ := h.paid
  have hle : l.search.last ≤ finish := h.ready.last_le.trans h.ready.low_le_finish
  have hmove := mul_nonneg hspeed (sub_nonneg.2 hle)
  have hfar := abs_nonneg (P l.search.last - a)
  unfold left at hpaid
  linarith

/-- How a range ends: behind its last step, or because a boundary is not found, a step does not follow the one
before or a position cannot be had. -/
def Ended (eval : F → Except (StepError F) F) (r : Result F) : Prop :=
  (∃ s, r.outcome = .ok s) ∨ (∃ t, r.outcome = .error (.notConverged t (maxIterations + 1))) ∨
    (∃ t last, r.outcome = .error (.outOfOrder t last)) ∨ ∃ t e, eval t = .error e ∧ r.outcome = .error e

theorem Loop.pass_ended {r : Result F} (h : l.pass eval base d finish = .inr r) :
    r.steps = l.steps ∧ Ended eval r := by
  have hcases := l.pass_passes eval base d finish
  rw [h] at hcases
  cases hcases with
  | ended => exact ⟨rfl, .inl ⟨_, rfl⟩⟩
  | exhausted => exact ⟨rfl, .inr (.inl ⟨_, rfl⟩)⟩
  | failed he => exact ⟨rfl, .inr (.inr (.inr ⟨_, _, he, rfl⟩))⟩
  | overtaken => exact ⟨rfl, .inr (.inr (.inl ⟨_, _, rfl⟩))⟩

/-- The loop counts its positions as long as it goes on, and it ends behind a bounded number of steps. -/
theorem Loop.ends (heval : Evaluates P eval) (base commanded : F) (forward : Bool) (steps : Array (Step F))
    (lastStep : Option F) (hd : 4 * (1 + speed) * timeTolerance ≤ d) (hlt : start < finish)
    (hP : Slow P start finish speed)
    (hbegin : l = .begin (.begin commanded d start finish forward) steps lastStep) :
    (∀ m l', l.after eval base d finish m = .inl l' → l'.Counted steps.size m) ∧
    ∃ n r found, l.after eval base d finish n = .inr r ∧ Ended eval r ∧
      r.steps.size = steps.size + found ∧ n ≤ maxIterations * (found + 1) + 1 ∧
      found * d ≤ 2 * (|P start - commanded| + speed * (finish - start)) := by
  have hspeed := hP.nonneg hlt
  have hdpos : 0 < d := lt_of_lt_of_le (by have := timeTolerance_pos (F := F); positivity) hd
  have counted : ∀ m l', l.after eval base d finish m = .inl l' → l'.Counted steps.size m := by
    intro m l' ha
    rw [← Nat.zero_add m]
    exact after_keeps (fun _ _ _ hl hp => hl.pass hp) m (hbegin ▸ begin_counted _ steps lastStep) ha
  have few : ∀ m l', l.after eval base d finish m = .inl l' →
      l'.counts.length * d ≤ 2 * (|P start - commanded| + speed * (finish - start)) := by
    intro m l' ha
    have hpaid := hbegin ▸ begin_paid P speed commanded d forward steps lastStep hlt
    exact (after_keeps (I := fun _ l => l.Paid P d start finish speed _)
      (fun _ _ _ hl hp => hl.pass heval hd hspeed hP hp) m (m := 0) hpaid ha).steps_le hspeed
  refine ⟨counted, ?_⟩
  -- as many steps as what is left pays for, and the positions for one more
  obtain ⟨most, hmost⟩ : ∃ most : Nat, ∀ found : Nat,
      found * d ≤ 2 * (|P start - commanded| + speed * (finish - start)) → found ≤ most :=
    ⟨_, fun found hf => Nat.le_floor ((le_div_iff₀ hdpos).2 hf)⟩
  cases hall : l.after eval base d finish (maxIterations * (most + 1) + 1) with
  | inl l' =>
    have hpositions := (counted _ l' hall).positions_le
    have hfew := Nat.mul_le_mul_left maxIterations (Nat.add_le_add_right (hmost _ (few _ l' hall)) 1)
    omega
  | inr r =>
    obtain ⟨m, l', ha, hlast, hr⟩ := after_last _ hall
    obtain ⟨hsteps, hended⟩ := pass_ended hlast
    exact ⟨m + 1, r, l'.counts.length, hr, hended, by rw [hsteps, (counted m l' ha).steps],
      Nat.succ_le_succ (counted m l' ha).positions_le, few m l' ha⟩

end Search

namespace StepTracker

/-- The loop that searches a segment for the steps of a visit. -/
def loop (s : StepTracker F) (v : Visit F) (m : Segment F) (steps : Array (Step F)) : Search.Loop F :=
  .begin (.begin s.commanded s.stepDistance (v.lower m - m.start) (v.upper m - m.start) s.forward) steps s.lastStep

/-- The loop after a number of passes. -/
def loopAfter (s : StepTracker F) (k : Kinematics F) (v : Visit F) (c : Cursor F) (steps : Array (Step F)) (n : Nat) :
    Search.Loop F ⊕ Search.Result F :=
  (s.loop v c.current steps).after (k.evaluate c c.current.start) c.current.start s.stepDistance
    (v.upper c.current - c.current.start) n

/-- With fewer steps than the limit, the search of a segment ends as the loop does. -/
theorem searchSegment_of_loop {s : StepTracker F} {k : Kinematics F} {q : Queue F} {v : Visit F} {c : Cursor F}
    {steps : Array (Step F)} {n : Nat} {r : Search.Result F} (hc : q.cursor? v.segment = some c)
    (hlt : v.lower c.current < v.upper c.current) (h : s.loopAfter k v c steps n = .inr r)
    (hfew : r.steps.size < steps.size + stepLimit) : s.searchSegment k q v steps = s.settle r := by
  obtain ⟨fuel, hfuel⟩ : ∃ fuel, stepLimit = fuel + 1 := ⟨twoTo 62 - 1, by decide⟩
  have hrun := Search.Loop.bounded_of_after n fuel (Nat.zero_le _) h (by
    show r.steps.size ≤ steps.size + fuel
    omega)
  rw [searchSegment_eq, search?_eq hc rfl, if_neg (not_le.2 hlt), hfuel, Search.Loop.run_succ fuel _ []]
  exact congrArg s.settle hrun

/-- The search of a range ends, however far the model is from the commanded position, if the model is slow for the
length of a step. Its loop takes no more positions for a step than it may, and finds no more steps than the distance to
the model and the way of the model have half step lengths. An empty range is not searched. -/
theorem searchSegment_ends {s : StepTracker F} {k : Kinematics F} {q : Queue F} {v : Visit F} {c : Cursor F}
    {speed : F} (steps : Array (Step F)) (hc : q.cursor? v.segment = some c)
    (hslow : ∀ t u, 0 ≤ t → t ≤ u → u ≤ c.current.duration → |k.position c u - k.position c t| ≤ speed * (u - t))
    (hd : 4 * (1 + speed) * 0.000000001 ≤ s.stepDistance) :
    v.upper c.current ≤ v.lower c.current ∧ s.searchSegment k q v steps = (s, .ok steps) ∨
    (∀ n l, s.loopAfter k v c steps n = .inl l → l.Counted steps.size n) ∧
    ∃ n r found, s.loopAfter k v c steps n = .inr r ∧ Search.Ended (k.evaluate c c.current.start) r ∧
      r.steps.size = steps.size + found ∧ n ≤ Search.maxIterations * (found + 1) + 1 ∧
      found * s.stepDistance ≤ 2 * (|k.position c (v.lower c.current - c.current.start) - s.commanded| +
        speed * (v.upper c.current - v.lower c.current)) ∧
      (found < stepLimit → s.searchSegment k q v steps = s.settle r) := by
  rcases le_or_gt (v.upper c.current) (v.lower c.current) with hempty | hlt
  · left
    exact ⟨hempty, by rw [searchSegment_eq, search?_eq hc rfl, if_pos hempty]⟩
  right
  have hstart : 0 ≤ v.lower c.current - c.current.start := sub_nonneg.2 (le_max_right _ _)
  have hfinish : v.upper c.current - c.current.start ≤ c.current.duration := by
    rw [sub_le_iff_le_add']
    exact min_le_right _ _
  have hP : Search.Slow (k.position c) (v.lower c.current - c.current.start) (v.upper c.current - c.current.start)
      speed := fun t u ht htu hu => hslow t u (hstart.trans ht) htu (hu.trans hfinish)
  obtain ⟨hcounted, n, r, found, hr, hended, hsize, hn, hfound⟩ := Search.Loop.ends
    (Search.evaluates_position k c c.current.start) c.current.start s.commanded s.forward steps s.lastStep hd
    (sub_lt_sub_right hlt c.current.start) hP rfl
  rw [sub_sub_sub_cancel_right] at hfound
  exact ⟨hcounted, n, r, found, hr, hended, hsize, hn, hfound,
    fun hlimit => searchSegment_of_loop hc hlt hr (by omega)⟩

/-- One second at speed ten from the origin. -/
def runUp : Segment ℚ := ⟨0, 1, 10, 0, .origin, ⟨1, 0, 0⟩, .cruise⟩

/-- A stepper that is believed to be a thousand ahead of the model, and to go forward. -/
def farAhead : StepTracker ℚ := ⟨2, 1000, 0, 0, none, true⟩

/-- The search turns, comes down to the model and goes on with it. -/
theorem searchSegment_ends_farAhead : ∃ r : Search.Result ℚ, Search.Ended (fun t => .ok (10 * t)) r ∧
    r.steps.size ≤ 1010 ∧ farAhead.searchSegment (Model.linear .x).kinematics ⟨#[runUp], [], none⟩ ⟨0, 0, 1, none⟩ #[] =
      farAhead.settle r := by
  obtain ⟨c, hc, hcur⟩ := Queue.exists_cursor (q := ⟨#[runUp], [], none⟩) (i := 0) (m := runUp) rfl
  have hposition : ∀ t, (Model.linear .x).kinematics.position c t = 10 * t := fun t => by
    show c.current.axisAt .x t = _
    rw [hcur]
    simp [Segment.axisAt, Segment.distanceAt, Coord.get, Coord.origin, runUp]
  have heval : (Model.linear .x).kinematics.evaluate c c.current.start = fun t => .ok (10 * t) := by
    rw [Model.evaluate_eq]
    simp only [hposition]
  have hslow : ∀ t u, 0 ≤ t → t ≤ u → u ≤ c.current.duration →
      |(Model.linear .x).kinematics.position c u - (Model.linear .x).kinematics.position c t| ≤ 10 * (u - t) := by
    intro t u _ htu _
    rw [hposition, hposition, ← mul_sub, abs_of_nonneg (by linarith)]
  rcases searchSegment_ends (s := farAhead) (v := ⟨0, 0, 1, none⟩) #[] hc hslow (by norm_num [farAhead]) with
    ⟨hempty, -⟩ | ⟨-, n, r, found, -, hended, hsize, -, hfound, hsettle⟩
  · rw [hcur] at hempty
    norm_num [Visit.upper, Visit.lower, Segment.finish, runUp] at hempty
  · rw [hposition, hcur] at hfound
    norm_num [Visit.upper, Visit.lower, Segment.finish, runUp, farAhead] at hfound
    have hfew : found ≤ 1010 := by
      have : (found : ℚ) ≤ 1010 := by linarith
      exact_mod_cast this
    have hlimit : 1010 < stepLimit := by decide
    exact ⟨r, heval ▸ hended, by rw [hsize]; simpa using hfew, hsettle (by omega)⟩

end StepTracker

end PrinterMotion
