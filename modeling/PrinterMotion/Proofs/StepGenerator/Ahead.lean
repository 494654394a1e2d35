/-
Queues stay ahead of flushes. A flush holds the queues until its step time before it advances the steppers,
and what it retires lies behind that. So a queue with motion ends at the step time or later, no stepper is
asked for more than its queue has, and only its model or its search can fail.
-/
import PrinterMotion.Proofs.StepGenerator.Flushed
import PrinterMotion.Proofs.StepGenerator.Operations

namespace PrinterMotion

variable {F : Type} [Exact F]

/-! ## Failures of one stepper -/

/-- Not the failure of a stepper that is asked for more than its queue has. -/
def StepError.Inherent (e : StepError F) : Prop := ∀ time queueEnd, e ≠ .beyondQueue time queueEnd

theorem Kinematics.evaluate_inherent {k : Kinematics F} {c : Cursor F} {base time : F} {e : StepError F}
    (h : k.evaluate c base time = .error e) : e.Inherent := by
  unfold evaluate at h
  dsimp only at h
  split at h <;> cases h
  rintro _ _ ⟨⟩

theorem Search.run_inherent {eval : F → Except (StepError F) F} (heval : ∀ t e, eval t = .error e → e.Inherent)
    (base d finish : F) (fuel : Nat) (s : Search F) (steps : Array (Step F)) (lastStep : Option F) {e : StepError F}
    (h : (run eval base d finish fuel s steps lastStep).outcome = .error e) : e.Inherent := by
  induction fuel generalizing s steps lastStep with
  | zero =>
    cases h
    rintro _ _ ⟨⟩
  | succ fuel ih =>
    have hany : ∀ r r', True → Probes eval d finish r false r' → True := fun _ _ _ _ => trivial
    unfold run at h
    rcases hunt_cases hany base maxIterations s trivial with
      ⟨s', hs, -⟩ | ⟨s', hs, -⟩ | ⟨t, n, hs⟩ | ⟨t, e', he, hs⟩ <;> simp only [hs] at h
    · split at h
      · exact ih _ _ _ h
      · cases h
        rintro _ _ ⟨⟩
    · cases h
    · cases h
      rintro _ _ ⟨⟩
    · cases h
      exact heval t _ he

theorem Queue.exists_back {α : Type} {q : Queue α} (h : q.active ≠ #[]) : ∃ last, last ∈ q.active.back? := by
  refine Option.isSome_iff_exists.1 ?_
  rw [← Array.getLast?_toList, List.getLast?_isSome]
  exact fun hnil => h (Array.toList_eq_nil_iff.1 hnil)

namespace StepTracker

theorem searchSegment_inherent {s : StepTracker F} {k : Kinematics F} {q : Queue F} {v : Visit F}
    {steps : Array (Step F)} {e : StepError F} (h : (s.searchSegment k q v steps).2 = .error e) : e.Inherent := by
  unfold searchSegment at h
  split at h
  · cases h
  · rename_i c _
    dsimp only at h
    split at h
    · cases h
    · split at h
      · rename_i he
        cases h
        exact Search.run_inherent (fun _ _ => Kinematics.evaluate_inherent) _ _ _ _ _ _ _ he
      · cases h

theorem runVisits_inherent {k : Kinematics F} {q : Queue F} : ∀ (vs : List (Visit F)) {s : StepTracker F}
    {steps : Array (Step F)} {e : StepError F}, (runVisits k q vs s steps).2 = .error e → e.Inherent
  | [], _, _, _, h => by cases h
  | v :: rest, s, steps, e, h => by
    rw [runVisits_cons] at h
    rcases hs : s.searchSegment k q v steps with ⟨s', e' | steps'⟩ <;> rw [hs] at h
    · cases h
      exact searchSegment_inherent (congrArg Prod.snd hs)
    · exact runVisits_inherent rest h

/-- A stepper whose queue reaches the time can fail in its model or its search alone. -/
theorem advance_inherent {s : StepTracker F} {k : Kinematics F} {q : Queue F} {time : F} (hq : q.Reaches time)
    (hmotion : q.active ≠ #[]) {e : StepError F} (h : (s.advance k (some q) time).2 = .error e) : e.Inherent := by
  unfold advance at h
  split at h
  · cases h
  · obtain ⟨last, hlast⟩ := Queue.exists_back hmotion
    have hfinish : q.finish? = some last.finish := by rw [Queue.finish?, hlast]; rfl
    simp only [hfinish, if_pos (hq last hlast)] at h
    exact runVisits_inherent _ h

end StepTracker

namespace StepGenerator

variable {g g' g'' : StepGenerator F}

/-! ## Failures of a flush -/

theorem advanceMember_inherent {time : F} {m : Member F} {ref : QueueRef} (href : m.stepper.queue = some ref)
    (hreach : (g.queue ref).Reaches time) {e : StepError F} (h : (g.advanceMember time m).2 = .error e) :
    e.Inherent := by
  unfold advanceMember at h
  split at h
  · cases h
  · rename_i hidle
    rw [href] at hidle h
    exact StepTracker.advance_inherent hreach (fun hempty => hidle (by simp [Queue.isEmpty, hempty])) h

theorem advanceMembers_inherent {time : F} (hreach : ∀ ref ∈ g.servedQueues, (g.queue ref).Reaches time) :
    ∀ (members : List (Member F)) (report : StepReport F) {e : GeneratorError F},
      (∀ m ∈ members, ∃ ref ∈ g.servedQueues, m.stepper.queue = some ref) →
      (g.advanceMembers time members report).2 = .error e → ∃ name why, e = .step name why ∧ why.Inherent
  | [], _, _, _, h => by cases h
  | m :: rest, report, e, hserved, h => by
    rw [advanceMembers_cons] at h
    rcases hm : g.advanceMember time m with ⟨m', why | steps⟩ <;> rw [hm] at h
    · cases h
      obtain ⟨ref, hmem, href⟩ := hserved m List.mem_cons_self
      exact ⟨_, why, rfl, advanceMember_inherent href (hreach ref hmem) (congrArg Prod.snd hm)⟩
    · exact advanceMembers_inherent hreach rest _ (fun m hm => hserved m (List.mem_cons_of_mem _ hm)) h

theorem Upkept.flush_inherent (h : g.Upkept) {time : F} {e : GeneratorError F} (he : (g.flush time).2 = .error e) :
    ∃ name why, e = .step name why ∧ why.Inherent := by
  obtain ⟨⟨toolhead, extras, hsame⟩, -, hreach⟩ := h.held time
  have hserved : (g.held time).servedQueues = g.servedQueues := by rw [hsame]; rfl
  rw [flush_eq, h.refreshWindows_eq] at he
  rcases hadv : (g.held time).advanceMembers (g.stepTime time) g.members [] with ⟨members, e' | report⟩ <;>
    rw [hadv] at he <;> cases he
  refine advanceMembers_inherent (g := g.held time) (hserved ▸ hreach) g.members [] ?_ (congrArg Prod.snd hadv)
  rw [hserved]
  exact h.served

/-! ## Operations -/

/-- The flush delay is that of the windows on record, and every stepper has a queue that flushes keep up. -/
structure Supplied (g : StepGenerator F) : Prop where
  delay : g.flushDelay = g.scanTimes.foldl Scalar.max minFlushDelay
  served : ∀ m ∈ g.members, ∃ ref ∈ g.servedQueues, m.stepper.queue = some ref

/-- What does not flush leaves the steppers supplied and the last flush where it is. -/
structure Spared (g g' : StepGenerator F) : Prop where
  supplied : g.Supplied → g'.Supplied
  lastFlush : g'.lastFlush = g.lastFlush

theorem Spared.refl (g : StepGenerator F) : Spared g g := ⟨id, rfl⟩

theorem Spared.trans (h : Spared g g') (h' : Spared g' g'') : Spared g g'' :=
  ⟨h'.supplied ∘ h.supplied, h'.lastFlush.trans h.lastFlush⟩

theorem SameBut.spared (h : SameBut g g') : Spared g g' := by
  obtain ⟨toolhead, extras, rfl⟩ := h
  exact ⟨fun h => ⟨h.delay, h.served⟩, rfl⟩

theorem spared_replaceScanTime (g : StepGenerator F) (new old : F) : Spared g (g.replaceScanTime new old) :=
  ⟨fun h => ⟨rfl, h.served⟩, rfl⟩

theorem spared_foldl_replaceScanTime : ∀ (changes : List (F × F)) (g : StepGenerator F),
    Spared g (changes.foldl (fun g (new, old) => g.replaceScanTime new old) g)
  | [], g => .refl g
  | (new, old) :: rest, g => (spared_replaceScanTime g new old).trans (spared_foldl_replaceScanTime rest _)

theorem spared_refreshWindows (g : StepGenerator F) : Spared g g.refreshWindows := by
  have hmembers : Spared g
      { g with members := g.members.map fun m => { m with window := m.stepper.model.scanWindow } } := by
    refine ⟨fun h => ⟨h.delay, fun m hm => ?_⟩, rfl⟩
    obtain ⟨m', hm', rfl⟩ := List.mem_map.1 hm
    exact h.served m' hm'
  exact hmembers.trans (spared_foldl_replaceScanTime _ _)

theorem spared_refitted {members : List (Member F)} (hr : List.Forall₂ Refitted g.members members) :
    Spared g { g with members } := by
  refine ⟨fun h => ⟨h.delay, fun m hm => ?_⟩, rfl⟩
  obtain ⟨old, hold, model, rfl⟩ := exists_of_forall₂ hr m hm
  exact h.served old hold

theorem spared_fitted (h : Fitted g g') : Spared g g' := by
  cases h with
  | same => exact .refl g
  | @refreshed toolhead mode members models =>
    have hmode : Spared g { g with activeToolhead := toolhead, activeMode := mode } :=
      ⟨fun h => ⟨h.delay, h.served⟩, rfl⟩
    exact (hmode.trans (spared_refitted models)).trans (spared_refreshWindows _)

theorem spared_addStepper (g : StepGenerator F) (s : Stepper F) : Spared g (g.addStepper s) := by
  refine ⟨fun h => ⟨?_, served_addStepper s h.served⟩, ?_⟩
  · simp only [addStepper]
    split
    · rfl
    · exact h.delay
  · simp only [addStepper]
    split <;> rfl

/-- An operation is a flush or leaves the steppers supplied and the last flush where it is. -/
theorem operate_cases (g : StepGenerator F) (op : Operation F) :
    (∃ time, op = .call (.flush time)) ∨ Spared g (g.operate op) := by
  generalize hg : g.operate op = g'
  cases hg ▸ g.operated_operate op with
  | added s => exact .inr (spared_addStepper g s)
  | fitted _ hfitted => exact .inr (spared_fitted hfitted)
  | @queued c => exact .inr (g.sameBut_replay c).spared
  | flushed time => exact .inl ⟨time, rfl⟩
  | remodelled models => exact .inr (spared_refitted models)
  | noted new old => exact .inr (spared_replaceScanTime g new old)

/-! ## Flushes -/

theorem current_refreshWindows (g : StepGenerator F) :
    ∀ m ∈ g.refreshWindows.members, m.window = m.stepper.model.scanWindow := by
  intro m hm
  rw [refreshWindows_members] at hm
  obtain ⟨m', -, rfl⟩ := List.mem_map.1 hm
  rfl

theorem flush_refreshWindows (g : StepGenerator F) (time : F) : g.refreshWindows.flush time = g.flush time := by
  unfold flush
  rw [refreshWindows_eq g.current_refreshWindows]

/-- Once the windows are up to date, nothing is missing for a flush. -/
theorem Supplied.upkept (h : g.Supplied) : g.refreshWindows.Upkept := by
  have hsupplied := (spared_refreshWindows g).supplied h
  exact ⟨g.current_refreshWindows, delay_pos_of_recorded hsupplied.delay, hsupplied.served⟩

/-- A flush leaves the steppers supplied, and the last flush where it is or at its step time. -/
theorem Supplied.flush (h : g.Supplied) (time : F) :
    (g.flush time).1.Supplied ∧ g.lastFlush ≤ (g.flush time).1.lastFlush := by
  have hlast := (spared_refreshWindows g).lastFlush
  obtain ⟨hsteps, hanswer⟩ := h.upkept.flush time
  have hserved := (h.upkept.of_steps hsteps).served
  have hbooks := sameBooks_flush g time
  rw [flush_refreshWindows] at hserved hanswer
  refine ⟨⟨?_, hserved⟩, ?_⟩
  · rw [hbooks.flushDelay, hbooks.scanTimes]
    exact ((spared_refreshWindows g).supplied h).delay
  · rcases hanswer with ⟨-, hsame⟩ | ⟨report, -, hdone⟩
    · rw [hsame, hlast]
    · rw [hdone.lastFlush, stepTime, h.upkept.refreshWindows_eq, Scalar.max_eq, hlast]
      exact le_max_right _ _

theorem Supplied.operate (h : g.Supplied) (op : Operation F) :
    (g.operate op).Supplied ∧ g.lastFlush ≤ (g.operate op).lastFlush := by
  rcases operate_cases g op with ⟨time, rfl⟩ | hspared
  · exact h.flush time
  · exact ⟨hspared.supplied h, hspared.lastFlush.ge⟩

theorem Supplied.operated (h : g.Supplied) (ops : List (Operation F)) :
    (g.operated ops).Supplied ∧ g.lastFlush ≤ (g.operated ops).lastFlush := by
  induction ops generalizing g with
  | nil => exact ⟨h, le_refl _⟩
  | cons op rest ih =>
    obtain ⟨hop, hle⟩ := h.operate op
    obtain ⟨hrest, hle'⟩ := ih hop
    exact ⟨hrest, hle.trans hle'⟩

theorem supplied_attached (toolhead : Queue F) (extras : List (String × Queue F)) :
    (attached toolhead extras).Supplied := ⟨rfl, fun _ hm => by cases hm⟩

/-- What a flush of a queue leaves that is kept up: motion until the last flush at least, if there was any. -/
theorem Supplied.flush_ends (h : g.Supplied) {time : F} {report : StepReport F}
    (hok : (g.flush time).2 = .ok report) {ref : QueueRef} (href : ref ∈ g.servedQueues)
    (hmotion : (g.queue ref).active ≠ #[]) :
    ∃ last ∈ ((g.flush time).1.queue ref).active.back?, (g.flush time).1.lastFlush ≤ last.finish := by
  obtain ⟨scanTimes, flushDelay, heq⟩ := refreshWindows_same g
  have hqueue : g.refreshWindows.queue ref = g.queue ref := by
    rw [heq]
    cases ref <;> rfl
  have hserved : ref ∈ g.refreshWindows.servedQueues := by
    rw [heq]
    exact href
  obtain ⟨hsteps, hanswer⟩ := h.upkept.flush time
  rw [flush_refreshWindows] at hsteps hanswer
  rcases hanswer with ⟨⟨e, he⟩, -⟩ | ⟨report, -, hdone⟩
  · rw [hok] at he
    cases he
  · obtain ⟨last, hlast⟩ := Queue.exists_back (hqueue.symm ▸ hmotion)
    obtain ⟨last', hlast', -⟩ := hsteps.finish ref last hlast
    exact ⟨last', hlast', hdone.lastFlush ▸ hdone.reaches ref hserved last' hlast'⟩

/-- Whatever is done to a generator, its queues stay ahead of its flushes: each queue with motion that has a
stepper ends at the last flush or later once a flush has succeeded, the last flush never goes back, and a
flush that fails does so in a model or a search. -/
theorem queues_ahead (toolhead : Queue F) (extras : List (String × Queue F)) (ops : List (Operation F)) :
    let g := (attached toolhead extras).operated ops
    (∀ time report, (g.flush time).2 = .ok report → ∀ ref ∈ g.servedQueues, (g.queue ref).active ≠ #[] →
      ∃ last ∈ ((g.flush time).1.queue ref).active.back?, (g.flush time).1.lastFlush ≤ last.finish) ∧
    (∀ later, g.lastFlush ≤ (g.operated later).lastFlush) ∧
    ∀ time e, (g.flush time).2 = .error e → ∃ name why, e = .step name why ∧ why.Inherent := by
  intro g
  have hg : g.Supplied := ((supplied_attached toolhead extras).operated ops).1
  refine ⟨fun time report hok ref href hmotion => hg.flush_ends hok href hmotion,
    fun later => (hg.operated later).2, fun time e he => ?_⟩
  rw [← flush_refreshWindows] at he
  exact hg.upkept.flush_inherent he

end StepGenerator

end PrinterMotion
