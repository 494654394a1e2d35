/-
Step times are strictly increasing. The steps of one flush follow each other and lie behind the flush
before it, whatever happens to the position, the step distance, the model or the queue in between, and
also when the flush fails behind some of them. So no step is ever found out of order.
-/
import PrinterMotion.Proofs.Stepper.Visits

namespace PrinterMotion

variable {F : Type} [Exact F]

/-- A position that cannot be had is no complaint about the order of steps. -/
theorem Kinematics.evaluate_inOrder (k : Kinematics F) (c : Cursor F) (base time : F) :
    Search.InOrder (k.evaluate c base time) := by
  intro t l h
  unfold evaluate at h
  dsimp only at h
  split at h <;> cases h

/-- The exact values of a model are all positions. -/
theorem Model.evaluate_eq (m : Model F) (c : Cursor F) (base : F) :
    m.kinematics.evaluate c base = fun t => .ok (m.kinematics.position c t) :=
  Kinematics.evaluate_eq (fun _ => Scalar.isFinite_eq _) base

namespace StepTracker

/-! ## The steps of a flush -/

/-- The range of a search, in time from the start of its segment. -/
theorem search?_eq {s : StepTracker F} {k : Kinematics F} {q : Queue F} {v : Visit F} {steps : Array (Step F)}
    {c : Cursor F} {m : Segment F} (hc : q.cursor? v.segment = some c) (hcur : c.current = m) :
    s.search? k q v steps =
      if v.upper m ≤ v.lower m then none
      else some (Search.run (k.evaluate c m.start) m.start s.stepDistance (v.upper m - m.start) stepLimit
        (.begin s.commanded s.stepDistance (v.lower m - m.start) (v.upper m - m.start) s.forward) steps
        s.lastStep) := by
  have hlow : max (v.start - m.start) 0 = v.lower m - m.start := by
    rw [Visit.lower, ← max_sub_sub_right, sub_self]
  have hupp : min (v.stop - m.start) m.duration = v.upper m - m.start := by
    rw [Visit.upper, ← min_sub_sub_right, Segment.finish, add_sub_cancel_left]
  simp only [search?, hc, Option.bind_some, hcur, Scalar.zero_literal, Scalar.max_eq, Scalar.min_eq, hlow, hupp,
    sub_le_sub_iff_right]

/-- What a search leaves behind that starts from the steps `old` and the latest step `last`: new steps
between `a` and `b`, the latest of them remembered, and no complaint about their order. -/
structure Extended {β : Type} (a b : F) (old : Array (Step F)) (last : Option F) (steps : Array (Step F))
    (last' : Option F) (answer : Except (StepError F) β) : Prop where
  steps : ∃ new : List (Step F), steps.toList = old.toList ++ new ∧ Ascending a (new.map Step.time) b ∧
    last' = (new.map Step.time).getLast?.or last
  inOrder : Search.InOrder answer

theorem search?_extended {s : StepTracker F} {k : Kinematics F} {q : Queue F} {v : Visit F}
    {steps : Array (Step F)} {r : Search.Result F} {b time : F} (hb : ∀ l ∈ s.lastStep, l ≤ b)
    (hv : ∀ m, q.active[v.segment]? = some m → v.lower m < v.upper m → b ≤ v.lower m ∧ v.upper m ≤ time)
    (h : s.search? k q v steps = some r) :
    Extended b (Visit.reached q.active b v) steps s.lastStep r.steps r.lastStep r.outcome := by
  cases hc : q.cursor? v.segment with
  | none => simp only [search?, hc, Option.bind_none, reduceCtorEq] at h
  | some c =>
    obtain ⟨m, hm, hcur⟩ := Queue.cursor?_eq_some hc
    rw [search?_eq hc hcur] at h
    by_cases hrange : v.upper m ≤ v.lower m
    · rw [if_pos hrange] at h; cases h
    rw [if_neg hrange] at h
    rw [not_le] at hrange
    have hle := (hv m hm hrange).1
    have hreach : Visit.reached q.active b v = v.upper m := by
      simp only [Visit.reached, hm, if_pos hrange]
    obtain ⟨new, h1, h2, h3, h4⟩ := Search.run_ascending (k.evaluate_inOrder c m.start) m.start stepLimit
      (.begin s.commanded s.stepDistance (v.lower m - m.start) (v.upper m - m.start) s.forward) steps s.lastStep
      (Search.begin_ready s.commanded s.stepDistance s.forward (sub_lt_sub_right hrange m.start))
      (fun l hl => (hb l hl).trans (hle.trans (le_of_eq (add_sub_cancel _ _).symm)))
    cases h
    refine ⟨⟨new, h1, ?_, h3⟩, h4⟩
    rw [hreach]
    exact h2.mono (hle.trans (le_of_eq (add_sub_cancel _ _).symm)) (le_of_eq (add_sub_cancel _ _))

theorem Extended.nothing {β : Type} {a b : F} (steps : Array (Step F)) (last : Option F)
    {answer : Except (StepError F) β} (h : Search.InOrder answer) :
    Extended a b steps last steps last answer :=
  ⟨⟨[], by simp, ascending_nil a b, rfl⟩, h⟩

/-- The latest step is not behind the end of what was searched. -/
theorem Extended.last_le {β : Type} {a b : F} {old steps : Array (Step F)} {last last' : Option F}
    {answer : Except (StepError F) β} (h : Extended a b old last steps last' answer)
    (hl : ∀ l ∈ last, l ≤ a) (hab : a ≤ b) : ∀ l ∈ last', l ≤ b := by
  obtain ⟨new, -, hasc, rfl⟩ := h.steps
  intro l hlast
  cases hn : (new.map Step.time).getLast? with
  | none => rw [hn] at hlast; exact (hl l hlast).trans hab
  | some t =>
    rw [hn] at hlast
    cases hlast
    exact hasc.2 _ (List.mem_of_getLast? hn)

theorem Extended.trans {β γ : Type} {a b c : F} {old mid steps : Array (Step F)} {last last' last'' : Option F}
    {answer : Except (StepError F) β} {answer' : Except (StepError F) γ}
    (h : Extended a b old last mid last' answer) (h' : Extended b c mid last' steps last'' answer')
    (hab : a ≤ b) (hbc : b ≤ c) : Extended a c old last steps last'' answer' := by
  obtain ⟨new, h1, h2, h3⟩ := h.steps
  obtain ⟨new', h1', h2', h3'⟩ := h'.steps
  refine ⟨⟨new ++ new', ?_, ?_, ?_⟩, h'.inOrder⟩
  · rw [h1', h1, List.append_assoc]
  · rw [List.map_append]
    exact h2.append (le_refl _) hab hbc h2'
  · rw [h3', h3, List.map_append, List.getLast?_append]
    cases (new'.map Step.time).getLast? <;> rfl

/-- The search of one segment. -/
theorem searchSegment_extended {s : StepTracker F} {k : Kinematics F} {q : Queue F} {v : Visit F}
    {b time : F} (steps : Array (Step F)) (hb : ∀ l ∈ s.lastStep, l ≤ b)
    (hv : ∀ m, q.active[v.segment]? = some m → v.lower m < v.upper m → b ≤ v.lower m ∧ v.upper m ≤ time) :
    Extended b (Visit.reached q.active b v) steps s.lastStep (s.taken k q v steps)
      (s.searchSegment k q v steps).1.lastStep (s.searchSegment k q v steps).2 ∧
    ∀ out, (s.searchSegment k q v steps).2 = .ok out → out = s.taken k q v steps := by
  rw [searchSegment_eq]
  unfold taken
  cases h : s.search? k q v steps with
  | none => exact ⟨.nothing steps s.lastStep nofun, fun out ho => by cases ho; rfl⟩
  | some r =>
    have hx := search?_extended hb hv h
    simp only [settle]
    cases ho : r.outcome with
    | error e =>
      refine ⟨⟨hx.steps, fun t l he => ?_⟩, nofun⟩
      cases he
      exact hx.inOrder t l ho
    | ok search => exact ⟨⟨hx.steps, nofun⟩, fun out h => by cases h; rfl⟩

/-- The searches of a row of visits. -/
theorem runVisits_extended (k : Kinematics F) (q : Queue F) {time : F} :
    ∀ (vs : List (Visit F)) (s : StepTracker F) (steps : Array (Step F)) (b : F),
      Visit.Ordered q.active time b vs → (∀ l ∈ s.lastStep, l ≤ b) → b ≤ time →
        Extended b time steps s.lastStep (takenBy k q vs s steps) (runVisits k q vs s steps).1.lastStep
          (runVisits k q vs s steps).2 ∧
        ∀ out, (runVisits k q vs s steps).2 = .ok out → out = takenBy k q vs s steps
  | [], s, steps, b, _, _, _ => ⟨.nothing steps s.lastStep nofun, fun out ho => by cases ho; rfl⟩
  | v :: rest, s, steps, b, hord, hb, hbt => by
    obtain ⟨hv, hrest⟩ := hord
    obtain ⟨hx, hout⟩ := searchSegment_extended steps (k := k) hb hv
    obtain ⟨hle, hle'⟩ : b ≤ Visit.reached q.active b v ∧ Visit.reached q.active b v ≤ time := by
      rcases Visit.reached_cases q.active b v with h | ⟨m, hm, hlt, h⟩ <;> rw [h]
      · exact ⟨le_refl _, hbt⟩
      · exact ⟨(hv m hm hlt).1.trans hlt.le, (hv m hm hlt).2⟩
    rw [runVisits_cons, takenBy]
    obtain ⟨s', answer, hs⟩ : ∃ s' answer, s.searchSegment k q v steps = (s', answer) := ⟨_, _, rfl⟩
    rw [hs] at hx hout
    simp only [hs]
    cases answer with
    | error e => exact ⟨⟨(hx.trans (.nothing _ _ hx.inOrder) hle hle').steps, hx.inOrder⟩, nofun⟩
    | ok steps' =>
      obtain rfl : steps' = s.taken k q v steps := hout steps' rfl
      have hb' : ∀ l ∈ (s'.noted v).lastStep, l ≤ Visit.reached q.active b v := by
        rw [noted_lastStep]; exact hx.last_le hb hle
      obtain ⟨h1, h2⟩ := runVisits_extended k q rest (s'.noted v) (s.taken k q v steps) _ hrest hb' hle'
      rw [noted_lastStep] at h1
      exact ⟨hx.trans h1 hle hle', h2⟩

/-! ## The steps of one call -/

/-- A call of `advance` has nothing to do, or is refused, or runs the searches of a flush. -/
theorem advance_cases (s : StepTracker F) (k : Kinematics F) (queue : Option (Queue F)) (time : F) :
    ((∃ answer, s.advance k queue time = (s, answer) ∧
        (answer = .ok #[] ∧ time ≤ s.flushed ∨ ∃ finish, answer = .error (.beyondQueue time finish))) ∧
      s.takenTo k queue time = #[]) ∨
    ∃ q finish, queue = some q ∧ q.finish? = some finish ∧ s.flushed < time ∧ time ≤ finish ∧
      s.advance k queue time = runVisits k q (s.visits k q time) { s with flushed := time } #[] ∧
      s.takenTo k queue time = takenBy k q (s.visits k q time) { s with flushed := time } #[] := by
  rw [advance_eq, takenTo]
  cases hq : s.searched? queue time with
  | none =>
    left
    by_cases ht : time ≤ s.flushed
    · exact ⟨⟨_, rfl, .inl ⟨if_pos ht, ht⟩⟩, rfl⟩
    · exact ⟨⟨_, rfl, .inr ⟨_, if_neg ht⟩⟩, rfl⟩
  | some q =>
    obtain ⟨rfl, ht, finish, hf, hle⟩ := searched?_eq_some.1 hq
    exact .inr ⟨q, finish, rfl, hf, not_le.1 ht, hle, rfl, rfl⟩

theorem visits_ordered {s : StepTracker F} (k : Kinematics F) {q : Queue F} (hq : Contiguous q.active)
    (time : F) : Visit.Ordered q.active time s.flushed (s.visits k q time) := by
  unfold visits
  split
  · trivial
  · exact Visit.plan_ordered ⟨k.axes, k.before, k.after, s.flushed, time⟩ hq _ _ _ 0 _ rfl (Nat.zero_le _)
      (fun m _ => le_max_left _ _) fun j m h1 h2 => by omega

/-- A call of `advance` takes its steps behind the last flush, and flushes as far as it is told or not at
all. -/
theorem advance_extended {s : StepTracker F} (k : Kinematics F) {queue : Option (Queue F)} (time : F)
    (hq : ∀ q ∈ queue, Contiguous q.active) (hb : ∀ l ∈ s.lastStep, l ≤ s.flushed) :
    Extended s.flushed (s.advance k queue time).1.flushed #[] s.lastStep (s.takenTo k queue time)
      (s.advance k queue time).1.lastStep (s.advance k queue time).2 ∧
    ((s.advance k queue time).1.flushed = s.flushed ∧ s.takenTo k queue time = #[] ∨
      (s.advance k queue time).1.flushed = time ∧ s.flushed < time) ∧
    ∀ out, (s.advance k queue time).2 = .ok out → out = s.takenTo k queue time := by
  rcases advance_cases s k queue time with ⟨⟨answer, hs, hcase⟩, htaken⟩ | ⟨q, finish, rfl, -, ht, -, hs, htaken⟩
  · rw [hs, htaken]
    have hok : ∀ out, answer = .ok out → out = #[] := by
      intro out ho
      rcases hcase with ⟨h, -⟩ | ⟨finish, h⟩ <;> rw [h] at ho <;> cases ho
      rfl
    refine ⟨.nothing _ _ ?_, .inl ⟨rfl, rfl⟩, hok⟩
    rcases hcase with ⟨rfl, -⟩ | ⟨finish, rfl⟩ <;> exact nofun
  · rw [hs, htaken]
    obtain ⟨h1, h2⟩ := runVisits_extended k q (s.visits k q time) { s with flushed := time } #[] s.flushed
      (visits_ordered k (hq q rfl) time) hb ht.le
    rw [runVisits_flushed]
    exact ⟨h1, .inr ⟨rfl, ht⟩, h2⟩

end StepTracker

/-! ## Runs of a stepper -/

/-- A stepper between calls, with its model and the queue it takes its motion from. -/
structure Rig (F : Type) where
  tracker : StepTracker F
  kinematics : Kinematics F
  queue : Option (Queue F)

/-- A call on a stepper. The queue may be any one whose segments meet. -/
inductive Rig.Call (F : Type) [Exact F] where
  | advance (time : F)
  | setPosition (p : Coord F)
  | setStepDistance (distance : F)
  | replaceKinematics (k : Kinematics F)
  | setQueue (queue : Option { q : Queue F // Contiguous q.active })

namespace Rig

/-- A stepper that has not moved and has no queue. -/
def new (stepDistance : F) (k : Kinematics F) : Rig F := ⟨⟨stepDistance, 0.0, 0.0, 0.0, none, false⟩, k, none⟩

/-- The rig after a call. -/
def after (r : Rig F) : Call F → Rig F
  | .advance time => { r with tracker := (r.tracker.advance r.kinematics r.queue time).1 }
  | .setPosition p =>
    { r with tracker := { r.tracker with
      commanded := r.kinematics.position (.single (.hold 0.0 holdTime p)) (0.5 * holdTime) } }
  | .setStepDistance distance => { r with tracker := { r.tracker with stepDistance := distance } }
  | .replaceKinematics k => { r with kinematics := k }
  | .setQueue queue => { r with queue := queue.map Subtype.val }

/-- What a call answers. -/
def answer (r : Rig F) : Call F → Except (StepError F) (Array (Step F))
  | .advance time => (r.tracker.advance r.kinematics r.queue time).2
  | _ => .ok #[]

/-- The steps that a call takes, also those before a failure. -/
def taken (r : Rig F) : Call F → Array (Step F)
  | .advance time => r.tracker.takenTo r.kinematics r.queue time
  | _ => #[]

/-- The rig after calls. -/
def run (r : Rig F) (calls : List (Call F)) : Rig F := calls.foldl after r

/-- The times of all steps of a run. -/
def stepTimes (r : Rig F) : List (Call F) → List F
  | [] => []
  | c :: cs => (r.taken c).toList.map Step.time ++ stepTimes (r.after c) cs

/-- Between calls the segments of the queue meet, and no step is behind the time of the last flush. -/
structure Sound (r : Rig F) : Prop where
  contiguous : ∀ q ∈ r.queue, Contiguous q.active
  last_le : ∀ l ∈ r.tracker.lastStep, l ≤ r.tracker.flushed

/-- What one call does to the order of steps. -/
structure Orderly (r : Rig F) (c : Call F) : Prop where
  sound : (r.after c).Sound
  flushed_le : r.tracker.flushed ≤ (r.after c).tracker.flushed
  /-- Steps follow each other behind the last flush. -/
  ascending : Ascending r.tracker.flushed ((r.taken c).toList.map Step.time) (r.after c).tracker.flushed
  /-- A call that succeeds returns the steps it takes. -/
  answer : ∀ steps, r.answer c = .ok steps → steps = r.taken c
  inOrder : Search.InOrder (r.answer c)
  /-- A flush goes no further than it is told. -/
  le_time : ∀ time, c = .advance time → ∀ t ∈ (r.taken c).toList.map Step.time, t ≤ time

theorem new_sound (d : F) (k : Kinematics F) : (new d k).Sound := ⟨nofun, nofun⟩

theorem call_orderly {r : Rig F} (h : r.Sound) (c : Call F) : r.Orderly c := by
  cases c with
  | advance time =>
    obtain ⟨hx, hflush, hout⟩ := StepTracker.advance_extended r.kinematics time h.contiguous h.last_le
    have hle : r.tracker.flushed ≤ (r.tracker.advance r.kinematics r.queue time).1.flushed := by
      rcases hflush with ⟨hf, -⟩ | ⟨hf, hlt⟩
      · exact hf.ge
      · rw [hf]; exact hlt.le
    obtain ⟨new, hnew, hasc, -⟩ := hx.steps
    have htaken : (r.taken (.advance time)).toList = new := hnew
    refine ⟨⟨h.contiguous, hx.last_le h.last_le hle⟩, hle, ?_, hout, hx.inOrder, ?_⟩
    · rw [htaken]; exact hasc
    · rintro _ ⟨⟩ t ht
      rcases hflush with ⟨-, hnone⟩ | ⟨hf, -⟩
      · have hempty : r.taken (.advance time) = #[] := hnone
        rw [hempty] at ht
        cases ht
      · rw [htaken] at ht
        exact (hasc.2 t ht).trans hf.le
  | setPosition p =>
    exact ⟨⟨h.contiguous, h.last_le⟩, le_refl _, ascending_nil _ _, fun _ ho => by cases ho; rfl, nofun, nofun⟩
  | setStepDistance distance =>
    exact ⟨⟨h.contiguous, h.last_le⟩, le_refl _, ascending_nil _ _, fun _ ho => by cases ho; rfl, nofun, nofun⟩
  | replaceKinematics k =>
    exact ⟨⟨h.contiguous, h.last_le⟩, le_refl _, ascending_nil _ _, fun _ ho => by cases ho; rfl, nofun, nofun⟩
  | setQueue queue =>
    refine ⟨⟨fun q hq => ?_, h.last_le⟩, le_refl _, ascending_nil _ _, fun _ ho => by cases ho; rfl, nofun, nofun⟩
    obtain ⟨q', -, rfl⟩ := Option.map_eq_some_iff.1 hq
    exact q'.property

theorem run_sound : ∀ (calls : List (Call F)) {r : Rig F}, r.Sound → (r.run calls).Sound
  | [], _, h => h
  | c :: cs, _, h => run_sound cs (call_orderly h c).sound

/-- The steps of a run from a sound state ascend from its last flush to that of the state behind it. -/
theorem stepTimes_ascending : ∀ (calls : List (Call F)) {r : Rig F}, r.Sound →
    r.tracker.flushed ≤ (r.run calls).tracker.flushed ∧
      Ascending r.tracker.flushed (r.stepTimes calls) (r.run calls).tracker.flushed
  | [], r, _ => ⟨le_refl _, ascending_nil _ _⟩
  | c :: cs, r, h => by
    have hc := call_orderly h c
    obtain ⟨hle, hasc⟩ := stepTimes_ascending cs hc.sound
    exact ⟨hc.flushed_le.trans hle, hc.ascending.append (le_refl _) hc.flushed_le hle hasc⟩

/-- Whatever calls are made on a stepper, the times of all its steps are strictly increasing. The steps
of each flush are behind the flush before it and not behind the time it was asked for, those it returns
are those it takes, and no step is ever out of order. -/
theorem steps_in_order (d : F) (k : Kinematics F) (calls : List (Call F)) :
    ((new d k).stepTimes calls).Pairwise (· < ·) ∧ ∀ time : F,
      (∀ t ∈ (((new d k).run calls).taken (.advance time)).toList.map Step.time,
        ((new d k).run calls).tracker.flushed < t ∧ t ≤ time) ∧
      (∀ steps, ((new d k).run calls).answer (.advance time) = .ok steps →
        steps = ((new d k).run calls).taken (.advance time)) ∧
      ∀ t l, ((new d k).run calls).answer (.advance time) ≠ .error (.outOfOrder t l) := by
  refine ⟨(List.pairwise_cons.1 (stepTimes_ascending calls (new_sound d k)).2.1).2, fun time => ?_⟩
  have hc := call_orderly (run_sound calls (new_sound d k)) (.advance time)
  refine ⟨fun t ht => ⟨?_, hc.le_time time rfl t ht⟩, hc.answer, hc.inOrder⟩
  exact (List.pairwise_cons.1 hc.ascending.1).1 t ht

end Rig

end PrinterMotion
