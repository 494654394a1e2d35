/-
The searches of a flush, round by round and one after the other. What a round keeps, the search for a boundary keeps,
and so does the search of a range; a position that cannot be had ends it. None of this asks what numbers are compared
and added.
-/
import PrinterMotion.Stepper.Advance

namespace PrinterMotion

variable {α : Type} [Scalar α]

namespace Search

/-! ## One position after the other -/

/-- One round of a search: a time is proposed, the position there is taken in, and it settles the
crossing or not. -/
def Probes (eval : α → Except (StepError α) α) (d finish : α) (s : Search α) (settled : Bool)
    (s' : Search α) : Prop :=
  ∃ t q p, s.propose finish = some (t, q) ∧ eval t = .ok p ∧ (q.note t p).judge d = (settled, s')

variable {eval : α → Except (StepError α) α} {d finish : α} {s s' : Search α}

theorem propose_keeps {t : α} {q : Search α} (h : s.propose finish = some (t, q)) :
    q.forward = s.forward ∧ q.target = s.target := by
  simp only [propose] at h
  split at h
  · cases h; exact ⟨rfl, rfl⟩
  split at h
  · cases h; exact ⟨rfl, rfl⟩
  split at h
  · cases h
  · cases h; exact ⟨rfl, rfl⟩

/-- Narrowing keeps the boundary that is looked for, unless the stepper has turned: then it is two step lengths back. -/
theorem narrow_target (s : Search α) (d : α) :
    (s.narrow d).forward = s.forward ∧ (s.narrow d).target = s.target ∨
    (s.narrow d).forward = !s.forward ∧
      (s.narrow d).target = s.target + 2.0 * Stepper.signed d (!s.forward) := by
  unfold narrow
  dsimp only
  generalize (if s.forward = true then s.position - s.target else -(s.position - s.target)) = past
  by_cases hpassed : (0.0 : α) < past
  · rw [if_pos hpassed]
    left
    split <;> exact ⟨rfl, rfl⟩
  rw [if_neg hpassed]
  split
  · exact .inr ⟨rfl, rfl⟩
  · exact .inl ⟨rfl, rfl⟩

theorem judge_eq (s : Search α) (d : α) : (s.judge d).2 = s ∨ (s.judge d).2 = s.narrow d := by
  unfold judge
  split
  · exact .inr rfl
  · exact .inl rfl

/-- So does a round. -/
theorem Probes.target {settled : Bool} (h : Probes eval d finish s settled s') :
    s'.forward = s.forward ∧ s'.target = s.target ∨
    s'.forward = !s.forward ∧ s'.target = s.target + 2.0 * Stepper.signed d (!s.forward) := by
  obtain ⟨t, q, p, hp, -, hj⟩ := h
  obtain ⟨hforward, htarget⟩ := propose_keeps hp
  obtain rfl : ((q.note t p).judge d).2 = s' := congrArg Prod.snd hj
  rw [← hforward, ← htarget]
  rcases judge_eq (q.note t p) d with hs | hs <;> rw [hs]
  · exact .inl ⟨rfl, rfl⟩
  · exact narrow_target (q.note t p) d

/-! ## The search for one boundary -/

/-- What a round preserves, a search for one boundary does: it ends in a state that has it, or with a
last round from such a state. -/
theorem hunt_cases {I : Search α → Prop} (step : ∀ s s', I s → Probes eval d finish s false s' → I s')
    (base : α) : ∀ (budget : Nat) (s : Search α), I s →
      (∃ s', hunt eval base d finish budget s = .found s' ∧ ∃ r, I r ∧ Probes eval d finish r true s') ∨
      (∃ s', hunt eval base d finish budget s = .ended s' ∧ I s' ∧ s'.propose finish = none) ∨
      (∃ t n, hunt eval base d finish budget s = .failed (.notConverged t n)) ∨
      ∃ t e, eval t = .error e ∧ hunt eval base d finish budget s = .failed e := by
  intro budget
  induction budget with
  | zero =>
    intro s hs
    unfold hunt
    cases hp : s.propose finish with
    | none => exact .inr (.inl ⟨s, rfl, hs, hp⟩)
    | some tq => exact .inr (.inr (.inl ⟨_, _, rfl⟩))
  | succ budget ih =>
    intro s hs
    unfold hunt
    cases hp : s.propose finish with
    | none => exact .inr (.inl ⟨s, rfl, hs, hp⟩)
    | some tq =>
      obtain ⟨t, q⟩ := tq
      simp only
      cases he : eval t with
      | error e => exact .inr (.inr (.inr ⟨t, e, he, rfl⟩))
      | ok p =>
        obtain ⟨settled, s', hj⟩ : ∃ settled s', (q.note t p).judge d = (settled, s') := ⟨_, _, rfl⟩
        simp only [hj]
        cases settled with
        | true => exact .inl ⟨s', rfl, s, hs, t, q, p, hp, he, hj⟩
        | false => exact ih s' (step s s' hs ⟨t, q, p, hp, he, hj⟩)

/-! ## The search of a range -/

/-- An answer other than that steps are out of order. -/
def InOrder {β : Type} (r : Except (StepError α) β) : Prop := ∀ t l, r ≠ .error (.outOfOrder t l)

theorem run_found {base : α} {fuel : Nat} {steps : Array (Step α)} {lastStep : Option α}
    (h : hunt eval base d finish maxIterations s = .found s') (hf : follows (base + s'.time) lastStep = true) :
    run eval base d finish (fuel + 1) s steps lastStep = run eval base d finish fuel (s'.advance d finish)
      (steps.push ⟨base + s'.time, s'.forward, s'.target⟩) (some (base + s'.time)) := by
  rw [run, h]
  simp only [hf, if_true]

theorem run_ended {base : α} {fuel : Nat} {steps : Array (Step α)} {lastStep : Option α}
    (h : hunt eval base d finish maxIterations s = .ended s') :
    run eval base d finish (fuel + 1) s steps lastStep = ⟨steps, lastStep, .ok s'⟩ := by
  rw [run, h]

/-- A range that was searched to its end leaves a state with what rounds and crossings preserve. -/
theorem run_ok {I : Search α → Prop} (step : ∀ s s', I s → Probes eval d finish s false s' → I s')
    (next : ∀ s s', I s → Probes eval d finish s true s' → I (s'.advance d finish)) (base : α) :
    ∀ (fuel : Nat) (s : Search α) (steps : Array (Step α)) (lastStep : Option α) (s' : Search α), I s →
      (run eval base d finish fuel s steps lastStep).outcome = .ok s' → I s' ∧ s'.propose finish = none := by
  intro fuel
  induction fuel with
  | zero => intro s steps lastStep s' _ h; cases h
  | succ fuel ih =>
    intro s steps lastStep s' hs h
    unfold run at h
    rcases hunt_cases step base maxIterations s hs with
      ⟨r', hr', r, hr, hp⟩ | ⟨r', hr', hi, hn⟩ | ⟨t, n, hr'⟩ | ⟨t, e, -, hr'⟩ <;> simp only [hr'] at h
    · split at h
      · exact ih _ _ _ _ (next r r' hr hp) h
      · cases h
    · cases h; exact ⟨hi, hn⟩
    · cases h
    · cases h

end Search

/-! ## Positions -/

/-- An evaluation that answers gives the position of the model. -/
theorem Kinematics.eq_of_evaluate {k : Kinematics α} {c : Cursor α} {base time p : α}
    (h : k.evaluate c base time = .ok p) : p = k.position c time := by
  unfold evaluate at h
  dsimp only at h
  split at h
  · cases h
    rfl
  · cases h

/-- A model that is nowhere out of its reach always answers. -/
theorem Kinematics.evaluate_eq {k : Kinematics α} {c : Cursor α} (h : ∀ t, k.isPosition (k.position c t) = true)
    (base : α) : k.evaluate c base = fun t => .ok (k.position c t) := by
  funext t
  simp [evaluate, h t]

theorem Queue.cursor?_eq_some {q : Queue α} {i : Nat} {c : Cursor α} (h : q.cursor? i = some c) :
    ∃ m, q.active[i]? = some m ∧ c.current = m := by
  unfold cursor? Cursor.at? at h
  split at h
  · rename_i hi
    cases h
    refine ⟨q.active[i], Array.getElem?_eq_getElem hi, ?_⟩
    simp [Cursor.current, Cursor.queued, hi, Int.not_lt.2 (Int.natCast_nonneg i)]
  · cases h

theorem Queue.exists_cursor {q : Queue α} {i : Nat} {m : Segment α} (hm : q.active[i]? = some m) :
    ∃ c, q.cursor? i = some c ∧ c.current = m := by
  obtain ⟨hi, rfl⟩ := Array.getElem?_eq_some_iff.1 hm
  refine ⟨⟨q.active, by omega, i, none⟩, ?_, ?_⟩
  · simp [Queue.cursor?, Cursor.at?, hi]
  · simp [Cursor.current, Cursor.queued, hi, Int.not_lt.2 (Int.natCast_nonneg i)]

namespace StepTracker

/-! ## The searches of a flush -/

/-- The search of a segment, if the visit meets it. -/
def search? (s : StepTracker α) (k : Kinematics α) (q : Queue α) (v : Visit α) (steps : Array (Step α)) :
    Option (Search.Result α) :=
  (q.cursor? v.segment).bind fun c =>
    let start := Scalar.max (v.start - c.current.start) 0.0
    let finish := Scalar.min (v.stop - c.current.start) c.current.duration
    if finish ≤ start then none
    else some (Search.run (k.evaluate c c.current.start) c.current.start s.stepDistance finish stepLimit
      (.begin s.commanded s.stepDistance start finish s.forward) steps s.lastStep)

/-- The tracker behind the search of a segment. -/
def settle (s : StepTracker α) (r : Search.Result α) :
    StepTracker α × Except (StepError α) (Array (Step α)) :=
  match r.outcome with
  | .error e => ({ s with lastStep := r.lastStep }, .error e)
  | .ok search => ({ s with
      lastStep := r.lastStep
      commanded := search.target - Stepper.signed s.stepDistance search.forward
      forward := search.forward }, .ok r.steps)

theorem searchSegment_eq (s : StepTracker α) (k : Kinematics α) (q : Queue α) (v : Visit α)
    (steps : Array (Step α)) : s.searchSegment k q v steps =
      match s.search? k q v steps with
      | none => (s, .ok steps)
      | some r => s.settle r := by
  unfold searchSegment search?
  cases q.cursor? v.segment with
  | none => rfl
  | some c =>
    simp only [Option.bind_some]
    split
    · rfl
    · unfold settle
      split <;> rename_i h <;> simp only [h]

/-- The tracker that has noted until when a visit moved the stepper. -/
def noted (s : StepTracker α) (v : Visit α) : StepTracker α :=
  match v.activeUntil with
  | some t => { s with lastActive := t }
  | none => s

omit [Scalar α] in
@[simp] theorem noted_lastStep (s : StepTracker α) (v : Visit α) : (s.noted v).lastStep = s.lastStep := by
  unfold noted; split <;> rfl

omit [Scalar α] in
@[simp] theorem noted_flushed (s : StepTracker α) (v : Visit α) : (s.noted v).flushed = s.flushed := by
  unfold noted; split <;> rfl

omit [Scalar α] in
theorem noted_commanded (s : StepTracker α) (v : Visit α) :
    (s.noted v).commanded = s.commanded ∧ (s.noted v).stepDistance = s.stepDistance := by
  unfold noted; split <;> exact ⟨rfl, rfl⟩

theorem runVisits_cons (k : Kinematics α) (q : Queue α) (v : Visit α) (rest : List (Visit α))
    (s : StepTracker α) (steps : Array (Step α)) : runVisits k q (v :: rest) s steps =
      match s.searchSegment k q v steps with
      | (s, .error e) => (s, .error e)
      | (s, .ok steps) => runVisits k q rest (s.noted v) steps := by
  rw [runVisits]
  rcases s.searchSegment k q v steps with ⟨s', _ | _⟩ <;> rfl

/-- A row of visits that succeeds succeeds at the first, and goes on from there. -/
theorem runVisits_cons_ok {k : Kinematics α} {q : Queue α} {v : Visit α} {rest : List (Visit α)} {s s' : StepTracker α}
    {steps out : Array (Step α)} (h : runVisits k q (v :: rest) s steps = (s', .ok out)) :
    ∃ s₁ steps₁, s.searchSegment k q v steps = (s₁, .ok steps₁) ∧
      runVisits k q rest (s₁.noted v) steps₁ = (s', .ok out) := by
  rw [runVisits_cons] at h
  obtain ⟨s₁, answer, hs⟩ : ∃ s₁ answer, s.searchSegment k q v steps = (s₁, answer) := ⟨_, _, rfl⟩
  rw [hs] at h
  cases answer with
  | error e => cases h
  | ok steps₁ => exact ⟨s₁, steps₁, hs, h⟩

theorem searchSegment_flushed (s : StepTracker α) (k : Kinematics α) (q : Queue α) (v : Visit α)
    (steps : Array (Step α)) : (s.searchSegment k q v steps).1.flushed = s.flushed := by
  rw [searchSegment_eq]
  split
  · rfl
  · unfold settle; split <;> rfl

theorem runVisits_flushed (k : Kinematics α) (q : Queue α) : ∀ (vs : List (Visit α)) (s : StepTracker α)
    (steps : Array (Step α)), (runVisits k q vs s steps).1.flushed = s.flushed
  | [], _, _ => rfl
  | v :: rest, s, steps => by
    rw [runVisits_cons, ← searchSegment_flushed s k q v steps]
    rcases s.searchSegment k q v steps with ⟨s', _ | steps'⟩
    · rfl
    · exact (runVisits_flushed k q rest (s'.noted v) steps').trans (noted_flushed s' v)

/-- All steps of the search of a segment, and those before it, whether or not it fails. -/
def taken (s : StepTracker α) (k : Kinematics α) (q : Queue α) (v : Visit α) (steps : Array (Step α)) :
    Array (Step α) :=
  match s.search? k q v steps with
  | none => steps
  | some r => r.steps

/-- All steps of a row of searches up to the first that fails, whose steps count too. -/
def takenBy (k : Kinematics α) (q : Queue α) : List (Visit α) → StepTracker α → Array (Step α) →
    Array (Step α)
  | [], _, steps => steps
  | v :: rest, s, steps =>
    match s.searchSegment k q v steps with
    | (_, .error _) => s.taken k q v steps
    | (s, .ok steps) => takenBy k q rest (s.noted v) steps

/-! ## One call -/

/-- The queue that a call of `advance` searches. It has to reach a time behind the last flush. -/
def searched? (s : StepTracker α) (queue : Option (Queue α)) (time : α) : Option (Queue α) :=
  if time ≤ s.flushed then none
  else queue.filter fun q => q.finish?.any fun finish => decide (time ≤ finish)

theorem searched?_eq_some {s : StepTracker α} {queue : Option (Queue α)} {time : α} {q : Queue α} :
    s.searched? queue time = some q ↔
      queue = some q ∧ ¬time ≤ s.flushed ∧ ∃ finish, q.finish? = some finish ∧ time ≤ finish := by
  unfold searched?
  split <;> rename_i ht <;> simp [ht, Option.filter_eq_some_iff, Option.any_eq_true]

/-- A call of `advance` runs the searches of a flush, or it has nothing to do, or it is refused. -/
theorem advance_eq (s : StepTracker α) (k : Kinematics α) (queue : Option (Queue α)) (time : α) :
    s.advance k queue time =
      match s.searched? queue time with
      | some q => runVisits k q (s.visits k q time) { s with flushed := time } #[]
      | none =>
        (s, if time ≤ s.flushed then .ok #[] else .error (.beyondQueue time (queue.bind Queue.finish?))) := by
  unfold advance searched?
  by_cases ht : time ≤ s.flushed
  · simp only [if_pos ht]
  simp only [if_neg ht]
  rcases queue with _ | q
  · rfl
  cases hf : q.finish? with
  | none => simp [hf, Option.filter]
  | some finish =>
    by_cases hle : time ≤ finish
    · simp [hf, Option.filter, hle]
    · simp [hf, Option.filter, hle]

/-- All steps that a call of `advance` takes, also when it fails. -/
def takenTo (s : StepTracker α) (k : Kinematics α) (queue : Option (Queue α)) (time : α) : Array (Step α) :=
  match s.searched? queue time with
  | some q => takenBy k q (s.visits k q time) { s with flushed := time } #[]
  | none => #[]

end StepTracker

end PrinterMotion
