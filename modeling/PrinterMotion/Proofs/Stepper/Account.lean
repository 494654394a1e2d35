/-
Step accounting. However often a search turns round before it settles a crossing, the boundary it looks
for is one step length from the commanded position. So the steps of a flush are a walk between commanded
positions, and over a run of flushes the commanded position is the one last set, moved by the step length
times the net of all directions. What is added up are whole multiples of the step length; positions may be
missing, and the model may fail anywhere.
-/
import PrinterMotion.Proofs.Partial
import PrinterMotion.Proofs.Stepper.Searches

namespace PrinterMotion

variable {α : Type} [Scalar α]

/-! ## Walks -/

/-- Steps that lead from one position to another, each one step length long. -/
inductive Walk (d : α) : α → List (Step α) → α → Prop
  | nil (a : α) : Walk d a [] a
  | cons {a b : α} {s : Step α} {rest : List (Step α)} (position : s.position = a + d * Scalar.ofInt s.direction)
      (walk : Walk d s.position rest b) : Walk d a (s :: rest) b

/-- The net of the directions of steps. -/
def netDirection (steps : List (Step α)) : Int := (steps.map Step.direction).sum

omit [Scalar α] in
theorem netDirection_append (steps more : List (Step α)) :
    netDirection (steps ++ more) = netDirection steps + netDirection more := by
  simp [netDirection]

theorem Walk.append {d a b c : α} {steps more : List (Step α)} (h : Walk d a steps b)
    (h' : Walk d b more c) : Walk d a (steps ++ more) c := by
  induction h with
  | nil => exact h'
  | cons position _ ih => exact .cons position (ih h')

theorem Walk.end_eq_last {d a b : α} {steps : List (Step α)} (h : Walk d a steps b) :
    b = (steps.getLast?.map Step.position).getD a := by
  induction h with
  | nil => rfl
  | @cons a b s rest _ _ ih =>
    rw [ih, List.getLast?_cons]
    cases rest.getLast? <;> rfl

theorem Walk.end_eq_net [Scalar.Stepwise α] {d a b : α} {steps : List (Step α)} (hd : Scalar.isFinite d = true)
    (h : Walk d a steps b) : b = a + d * Scalar.ofInt (netDirection steps) := by
  induction h with
  | nil a => exact (Scalar.Stepwise.add_zero a hd).symm
  | @cons a b s rest position _ ih =>
    rw [ih, position, Scalar.Stepwise.add_add _ _ _ hd]
    rfl

omit [Scalar α] in
theorem Step.direction_cases (s : Step α) : s.direction = 1 ∨ s.direction = -1 := by
  unfold Step.direction
  cases s.forward <;> simp

namespace Search

/-! ## The boundary that a search looks for -/

/-- The boundary is one step length ahead of the position `a`, in the direction of the search. -/
def Ahead (d a : α) (s : Search α) : Prop := s.target = a + Stepper.signed d s.forward

theorem advance_ahead {d finish : α} (s : Search α) : Ahead d s.target (s.advance d finish) := rfl

section Stepwise

variable [Scalar.Stepwise α] {eval : α → Except (StepError α) α} {d finish a : α} {s s' : Search α}

theorem signed_eq (hd : Scalar.isFinite d = true) (forward : Bool) :
    Stepper.signed d forward = d * Scalar.ofInt (if forward then 1 else -1) := by
  cases forward
  · exact Scalar.Stepwise.neg_eq hd
  · exact (Scalar.Stepwise.ofInt_one hd).symm

/-- A turn moves the boundary by two step lengths, from one side of the position to the other. -/
theorem Ahead.turned (hd : Scalar.isFinite d = true) (h : Ahead d a s) :
    s.target + 2.0 * Stepper.signed d (!s.forward) = a + Stepper.signed d (!s.forward) := by
  rw [h, signed_eq hd, signed_eq hd, Scalar.Stepwise.double _ hd, Scalar.Stepwise.add_add _ _ _ hd]
  cases s.forward <;> rfl

/-- The position is one step length behind the boundary. -/
theorem Ahead.behind (hd : Scalar.isFinite d = true) (h : Ahead d a s) :
    s.target - Stepper.signed d s.forward = a := by
  rw [h, signed_eq hd, Scalar.Stepwise.sub_eq _ _ hd, Scalar.Stepwise.add_add _ _ _ hd]
  cases s.forward <;> exact Scalar.Stepwise.add_zero a hd

/-- A step onto the boundary is one step length long. -/
theorem Ahead.step (hd : Scalar.isFinite d = true) (h : Ahead d a s) (time : α) :
    s.target = a + d * Scalar.ofInt (Step.direction ⟨time, s.forward, s.target⟩) := by
  unfold Step.direction
  rw [← signed_eq hd]
  exact h

theorem Probes.ahead {settled : Bool} (hd : Scalar.isFinite d = true) (h : Probes eval d finish s settled s')
    (ha : Ahead d a s) : Ahead d a s' := by
  unfold Ahead
  rcases h.target with ⟨hforward, htarget⟩ | ⟨hforward, htarget⟩ <;> rw [hforward, htarget]
  · exact ha
  · exact ha.turned hd

/-- The steps of a range that is searched to its end lead to one step length behind the next boundary. -/
theorem run_walk (hd : Scalar.isFinite d = true) (base : α) : ∀ (fuel : Nat) (s : Search α) (a : α)
    (steps : Array (Step α)) (lastStep : Option α), Ahead d a s →
    (run eval base d finish fuel s steps lastStep).outcome = .ok s' →
      ∃ new : List (Step α),
        (run eval base d finish fuel s steps lastStep).steps.toList = steps.toList ++ new ∧
        Walk d a new (s'.target - Stepper.signed d s'.forward) := by
  intro fuel
  induction fuel with
  | zero => intro s a steps lastStep _ h; cases h
  | succ fuel ih =>
    intro s a steps lastStep hs h
    -- the rounds may turn the search any number of times, always about the same position
    have round : ∀ r r', Ahead d a r → Probes eval d finish r false r' → Ahead d a r' :=
      fun r r' hr hp => hp.ahead hd hr
    unfold run at h ⊢
    rcases hunt_cases round base maxIterations s hs with
      ⟨r', hr', r, hr, hp⟩ | ⟨r', hr', hi, -⟩ | ⟨t, n, hr'⟩ | ⟨t, e, -, hr'⟩ <;> simp only [hr'] at h ⊢
    · have hfound : Ahead d a r' := hp.ahead hd hr
      split at h
      · rename_i hfollows
        rw [if_pos hfollows]
        obtain ⟨new, hnew, hwalk⟩ := ih _ r'.target _ _ (advance_ahead r') h
        refine ⟨⟨base + r'.time, r'.forward, r'.target⟩ :: new, ?_, .cons (hfound.step hd _) hwalk⟩
        rw [hnew]
        simp
      · cases h
    · cases h
      refine ⟨[], by simp, ?_⟩
      rw [hi.behind hd]
      exact .nil a
    · cases h
    · cases h

end Stepwise

end Search

namespace StepTracker

/-! ## One flush -/

variable [Scalar.Stepwise α]

theorem searchSegment_walk {s s' : StepTracker α} {k : Kinematics α} {q : Queue α} {v : Visit α}
    {steps out : Array (Step α)} (hd : Scalar.isFinite s.stepDistance = true)
    (h : s.searchSegment k q v steps = (s', .ok out)) :
    s'.stepDistance = s.stepDistance ∧ ∃ new : List (Step α), out.toList = steps.toList ++ new ∧
      Walk s.stepDistance s.commanded new s'.commanded := by
  rw [searchSegment_eq] at h
  cases hr : s.search? k q v steps with
  | none =>
    rw [hr] at h
    cases h
    exact ⟨rfl, [], by simp, .nil _⟩
  | some r =>
    rw [hr] at h
    simp only [settle] at h
    split at h
    · cases h
    rename_i search hout
    cases h
    obtain ⟨c, -, hc⟩ := Option.bind_eq_some_iff.1 hr
    simp only at hc
    split at hc
    · cases hc
    cases hc
    refine ⟨rfl, ?_⟩
    exact Search.run_walk hd _ _ _ s.commanded steps _ rfl hout

omit [Scalar.Stepwise α] in
theorem searchSegment_error {s s' : StepTracker α} {k : Kinematics α} {q : Queue α} {v : Visit α}
    {steps : Array (Step α)} {e : StepError α} (h : s.searchSegment k q v steps = (s', .error e)) :
    s'.stepDistance = s.stepDistance ∧ s'.commanded = s.commanded := by
  rw [searchSegment_eq] at h
  cases hr : s.search? k q v steps with
  | none =>
    rw [hr] at h
    cases h
  | some r =>
    rw [hr] at h
    simp only [settle] at h
    split at h
    · cases h
      exact ⟨rfl, rfl⟩
    · cases h

/-- The steps of a row of searches before the first that fails. -/
def finishedBy (k : Kinematics α) (q : Queue α) : List (Visit α) → StepTracker α → Array (Step α) →
    Array (Step α)
  | [], _, steps => steps
  | v :: rest, s, steps =>
    match s.searchSegment k q v steps with
    | (_, .error _) => steps
    | (s, .ok steps) => finishedBy k q rest (s.noted v) steps

/-- The steps of a call of `advance` that the commanded position takes in, also when it fails. -/
def finishedTo (s : StepTracker α) (k : Kinematics α) (queue : Option (Queue α)) (time : α) : Array (Step α) :=
  match s.searched? queue time with
  | some q => finishedBy k q (s.visits k q time) { s with flushed := time } #[]
  | none => #[]

omit [Scalar.Stepwise α] in
theorem runVisits_finished (k : Kinematics α) (q : Queue α) : ∀ (vs : List (Visit α)) (s : StepTracker α)
    (steps : Array (Step α)) {out : Array (Step α)}, (runVisits k q vs s steps).2 = .ok out →
      out = finishedBy k q vs s steps
  | [], _, _, _, h => by
    cases h
    rfl
  | v :: rest, s, steps, out, h => by
    rw [runVisits_cons] at h
    rw [finishedBy]
    rcases hs : s.searchSegment k q v steps with ⟨s₁, e | steps₁⟩ <;> rw [hs] at h
    · cases h
    · exact runVisits_finished k q rest (s₁.noted v) steps₁ h

/-- The commanded position takes in the searches before the first that fails. -/
theorem runVisits_walk (k : Kinematics α) (q : Queue α) : ∀ (vs : List (Visit α)) (s : StepTracker α)
    (steps : Array (Step α)), Scalar.isFinite s.stepDistance = true →
      (runVisits k q vs s steps).1.stepDistance = s.stepDistance ∧
      ∃ new : List (Step α), (finishedBy k q vs s steps).toList = steps.toList ++ new ∧
        Walk s.stepDistance s.commanded new (runVisits k q vs s steps).1.commanded
  | [], s, steps, _ => ⟨rfl, [], by simp [finishedBy], .nil _⟩
  | v :: rest, s, steps, hfinite => by
    rw [runVisits_cons, finishedBy]
    rcases hs : s.searchSegment k q v steps with ⟨s₁, e | steps₁⟩
    · -- A search that fails has moved nothing, so the row ends where it began.
      obtain ⟨hd, hc⟩ := searchSegment_error hs
      refine ⟨hd, [], (List.append_nil _).symm, ?_⟩
      show Walk s.stepDistance s.commanded [] s₁.commanded
      rw [hc]
      exact .nil _
    · obtain ⟨hd, new, hnew, hwalk⟩ := searchSegment_walk hfinite hs
      obtain ⟨hc, hdist⟩ := noted_commanded s₁ v
      obtain ⟨hd', more, hmore, hwalk'⟩ := runVisits_walk k q rest (s₁.noted v) steps₁
        (by rw [hdist, hd]; exact hfinite)
      rw [hdist, hd] at hd' hwalk'
      rw [hc] at hwalk'
      refine ⟨hd', new ++ more, ?_, hwalk.append hwalk'⟩
      show (finishedBy k q rest (s₁.noted v) steps₁).toList = _
      rw [hmore, hnew, List.append_assoc]

omit [Scalar.Stepwise α] in
/-- A flush that does not fail returns the steps it finishes. -/
theorem advance_finished {s : StepTracker α} {k : Kinematics α} {queue : Option (Queue α)} {time : α}
    {out : Array (Step α)} (h : (s.advance k queue time).2 = .ok out) : out = s.finishedTo k queue time := by
  rw [advance_eq] at h
  unfold finishedTo
  cases hq : s.searched? queue time with
  | some q =>
    rw [hq] at h
    exact runVisits_finished k q _ _ #[] h
  | none =>
    rw [hq] at h
    dsimp only at h
    split at h <;> cases h
    rfl

/-- Whether or not a flush fails, the steps it finishes lead from the commanded position before it to the one
behind it. -/
theorem advance_walk {s : StepTracker α} (hfinite : Scalar.isFinite s.stepDistance = true) (k : Kinematics α)
    (queue : Option (Queue α)) (time : α) :
    (s.advance k queue time).1.stepDistance = s.stepDistance ∧
    Walk s.stepDistance s.commanded (s.finishedTo k queue time).toList (s.advance k queue time).1.commanded := by
  rw [advance_eq, finishedTo]
  cases s.searched? queue time with
  | none => exact ⟨rfl, .nil _⟩
  | some q =>
    obtain ⟨hd, new, hnew, hwalk⟩ := runVisits_walk k q (s.visits k q time) { s with flushed := time } #[] hfinite
    refine ⟨hd, ?_⟩
    show Walk s.stepDistance s.commanded (finishedBy k q _ _ #[]).toList _
    rw [hnew]
    exact hwalk

/-! ## Runs of flushes -/

variable {F : Type} [Exact F]

/-- What is entered into the account of a stepper: its position is set, or steps are generated, with any
model along any queue. -/
inductive Entry (F : Type) where
  | position (p : F)
  | advance (k : Kinematics F) (queue : Option (Queue F)) (time : F)

/-- A tracker with the position that was set last, and all steps returned since. -/
structure Account (F : Type) where
  tracker : StepTracker F
  origin : F
  steps : List (Step F)

namespace Account

/-- The account that begins with the position of a tracker. -/
def begin (s : StepTracker F) : Account F := ⟨s, s.commanded, []⟩

/-- The account behind an entry, unless generating steps fails. -/
def enter (a : Account F) : Entry F → Option (Account F)
  | .position p => some ⟨{ a.tracker with commanded := p }, p, []⟩
  | .advance k queue time =>
    match a.tracker.advance k queue time with
    | (s, .ok steps) => some ⟨s, a.origin, a.steps ++ steps.toList⟩
    | (_, .error _) => none

/-- The steps since the position was set lead from it to the commanded position. -/
def Balanced (d : F) (a : Account F) : Prop :=
  a.tracker.stepDistance = d ∧ Walk d a.origin a.steps a.tracker.commanded

theorem enter_balanced {d : F} {a b : Account F} {e : Entry F} (h : a.Balanced d)
    (he : a.enter e = some b) : b.Balanced d := by
  cases e with
  | position p => cases he; exact ⟨h.1, .nil p⟩
  | advance k queue time =>
    obtain ⟨hd, hwalk⟩ := advance_walk (Scalar.isFinite_eq a.tracker.stepDistance) k queue time
    simp only [enter] at he
    split at he
    · rename_i s steps hs
      cases he
      rw [hs, h.1] at hd hwalk
      obtain rfl := advance_finished (congrArg Prod.snd hs)
      exact ⟨hd, h.2.append hwalk⟩
    · cases he

theorem run_balanced {d : F} : ∀ (entries : List (Entry F)) {a b : Account F}, a.Balanced d →
    entries.foldlM enter a = some b → b.Balanced d
  | [], a, b, h, hrun => by cases hrun; exact h
  | e :: rest, a, b, h, hrun => by
    rw [List.foldlM_cons] at hrun
    obtain ⟨a', he, hrun⟩ := Option.bind_eq_some_iff.1 hrun
    exact run_balanced rest (enter_balanced h he) hrun

end Account

/-- After any flushes that all succeed and any settings of the position, the commanded position is the
one last set, moved by the step length times the net of the directions of all steps returned since. The
steps of one more flush are a walk that begins at the commanded position and ends at the next. -/
theorem steps_accounted (s : StepTracker F) (entries : List (Entry F)) (a : Account F)
    (hrun : entries.foldlM Account.enter (.begin s) = some a) :
    a.tracker.commanded = a.origin + s.stepDistance * (netDirection a.steps : F) ∧
    ∀ (k : Kinematics F) (queue : Option (Queue F)) (time : F) (s' : StepTracker F)
      (steps : Array (Step F)), a.tracker.advance k queue time = (s', .ok steps) →
        Walk s.stepDistance a.tracker.commanded steps.toList s'.commanded ∧
        (∀ step ∈ steps.toList, step.direction = 1 ∨ step.direction = -1) ∧
        s'.commanded = (steps.toList.getLast?.map Step.position).getD a.tracker.commanded := by
  obtain ⟨hd, hwalk⟩ := Account.run_balanced entries (a := .begin s) ⟨rfl, .nil _⟩ hrun
  refine ⟨hwalk.end_eq_net (Scalar.isFinite_eq _), fun k queue time s' steps h => ?_⟩
  obtain ⟨-, hwalk'⟩ := advance_walk (Scalar.isFinite_eq a.tracker.stepDistance) k queue time
  obtain rfl := advance_finished (congrArg Prod.snd h)
  rw [h, hd] at hwalk'
  exact ⟨hwalk', fun step _ => step.direction_cases, hwalk'.end_eq_last⟩

/-- A third of a second ahead at speed 10 and a quarter of a second back, behind one second of rest. -/
def thereAndBack : Queue ℚ :=
  ⟨#[.hold 0 1 .origin, ⟨1, 1 / 3, 10, 0, .origin, ⟨1, 0, 0⟩, .cruise⟩,
    ⟨4 / 3, 1 / 4, 10, 0, ⟨10 / 3, 0, 0⟩, ⟨-1, 0, 0⟩, .cruise⟩], [], none⟩

/-- Three steps there and two back, over two flushes. -/
theorem steps_accounted_thereAndBack : ∃ a : Account ℚ,
    ([.position 0, .advance (Model.linear .x).kinematics (some thereAndBack) (5 / 4),
      .advance (Model.linear .x).kinematics (some thereAndBack) (19 / 12)]).foldlM Account.enter
        (.begin ⟨1, 2, 0, 0, none, false⟩) = some a ∧
    a.steps.map Step.direction = [1, 1, 1, -1, -1] ∧
    a.tracker.commanded = a.origin + 1 * (netDirection a.steps : ℚ) := by
  have h : (([.position 0, .advance (Model.linear .x).kinematics (some thereAndBack) (5 / 4),
      .advance (Model.linear .x).kinematics (some thereAndBack) (19 / 12)]).foldlM Account.enter
        (.begin ⟨1, 2, 0, 0, none, false⟩)).map (fun a => a.steps.map Step.direction) =
      some [1, 1, 1, -1, -1] := by decide +kernel
  obtain ⟨a, ha, hsteps⟩ := Option.map_eq_some_iff.1 h
  exact ⟨a, ha, hsteps, (steps_accounted ⟨1, 2, 0, 0, none, false⟩ _ a ha).1⟩

end StepTracker

end PrinterMotion
