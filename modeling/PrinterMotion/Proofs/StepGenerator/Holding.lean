/-
Flushes in exact arithmetic. No queue refuses to be held there, so a flush advances the steppers on queues that reach
its step time, and fails only if one of them does.
-/
import PrinterMotion.Proofs.Motion.Linked
import PrinterMotion.Proofs.StepGenerator.Calls
import PrinterMotion.Proofs.StepGenerator.Mirror
import PrinterMotion.Proofs.Stepper.Evaluation

namespace PrinterMotion.StepGenerator

variable {F : Type} [Exact F]

/-! ## Queues -/

theorem refreshWindows_eq {g : StepGenerator F} (h : ∀ m ∈ g.members, m.window = m.stepper.model.scanWindow) :
    g.refreshWindows = g :=
  refreshWindows_of_current h fun m _ => Scalar.isNumber_eq m.window

/-- Holding touches the queues that are named, and each of them as it is touched alone. -/
theorem holdQueues_spec (P : QueueRef → Queue F → Prop) (Q : Queue F → Prop) (time : F)
    (hP : ∀ ref q, P ref q → ∃ q', q.holdUntil time = .ok q' ∧ P ref q' ∧ Q q') :
    ∀ (refs : List QueueRef) (g : StepGenerator F), (∀ ref, P ref (g.queue ref)) →
      ∃ g', holdQueues time refs g = (g', none) ∧ SameBut g g' ∧ (∀ ref, P ref (g'.queue ref)) ∧
        (∀ ref ∈ refs, Q (g'.queue ref)) ∧ ∀ ref, ref ∉ refs → g'.queue ref = g.queue ref
  | [], g, h => ⟨g, rfl, .refl g, h, (fun _ hr => by cases hr), fun _ _ => rfl⟩
  | ref :: rest, g, h => by
    obtain ⟨q', hhold, hq', htouched⟩ := hP ref _ (h ref)
    obtain ⟨g', hrun, hsame, hall, hrest, hother⟩ := holdQueues_spec P Q time hP rest (g.setQueue ref q')
      (forall_queue_setQueue h hq')
    refine ⟨g', ?_, (sameBut_setQueue g ref q').trans hsame, hall, fun other ho => ?_, fun other ho => ?_⟩
    · rw [holdQueues, hhold]
      exact hrun
    · by_cases hmem : other ∈ rest
      · exact hrest other hmem
      · obtain rfl : other = ref := (List.mem_cons.1 ho).resolve_right hmem
        rw [hother other hmem, queue_setQueue_self]
        exact htouched
    · rw [hother other fun hmem => ho (List.mem_cons_of_mem _ hmem),
        queue_setQueue_ne g fun heq => ho (by rw [heq]; exact List.mem_cons_self)]

/-- So it leaves what it leaves of each queue alone, as none refuses to be held. -/
theorem holdQueues_keeps (P : QueueRef → Queue F → Prop) (time : F)
    (hP : ∀ ref q q', P ref q → q.holdUntil time = .ok q' → P ref q') (refs : List QueueRef) (g : StepGenerator F)
    (h : ∀ ref, P ref (g.queue ref)) :
    (holdQueues time refs g).2 = none ∧ ∀ ref, P ref ((holdQueues time refs g).1.queue ref) := by
  have hheld : ∀ ref q, P ref q → ∃ q', q.holdUntil time = .ok q' ∧ P ref q' ∧ True := by
    intro ref q hq
    obtain ⟨q', hhold, -⟩ := q.holdUntil_row time
    exact ⟨q', hhold, hP ref q q' hq hhold, trivial⟩
  obtain ⟨g', hrun, -, hall, -⟩ := holdQueues_spec P (fun _ => True) time hheld refs g h
  rw [hrun]
  exact ⟨rfl, hall⟩

theorem refusal?_eq_none (g : StepGenerator F) (time : F) : g.refusal? time = none :=
  (holdQueues_keeps (fun _ _ => True) (g.stepTime time) (fun _ _ _ _ _ => trivial) g.refreshWindows.servedQueues
    g.refreshWindows fun _ => trivial).1

/-- What a flush does: its steppers are advanced on the held queues, and if none fails motion is retired. -/
theorem flush_eq (g : StepGenerator F) (time : F) : g.flush time =
    match (g.held time).advanceMembers (g.stepTime time) g.refreshWindows.members [] with
    | (members, .error e) => ({ g.held time with members }, .error e)
    | (members, .ok report) =>
      ({ { g.held time with members }.finalizeQueues (g.stepTime time - g.refreshWindows.flushDelay)
          (g.stepTime time - historyTime) with lastFlush := g.stepTime time }, .ok report) := by
  rewrite [flush_eq_held, refusal?_eq_none]
  rfl

/-- Retiring touches queues that reach as far as they must, and leaves them so. -/
theorem finalize_spec (P : QueueRef → Queue F → Prop) {time clear stop : F}
    (hP : ∀ ref q, P ref q → q.Reaches stop → P ref (q.finalize time clear) ∧ (q.finalize time clear).Reaches stop)
    (refs : List QueueRef) (g : StepGenerator F) (h : ∀ ref, P ref (g.queue ref))
    (hreach : ∀ ref ∈ refs, (g.queue ref).Reaches stop) :
    let g' := refs.foldl (fun g ref => g.setQueue ref ((g.queue ref).finalize time clear)) g
    SameBut g g' ∧ ∀ ref, P ref (g'.queue ref) := by
  have hkeeps : ∀ ref ∈ refs, ∀ q, P ref q ∧ (ref ∈ refs → q.Reaches stop) →
      P ref (q.finalize time clear) ∧ (ref ∈ refs → (q.finalize time clear).Reaches stop) := by
    intro ref hmem q hq
    obtain ⟨hp, hr⟩ := hP ref q hq.1 (hq.2 hmem)
    exact ⟨hp, fun _ => hr⟩
  obtain ⟨hsame, hall⟩ := foldl_setQueue _ (fun q => q.finalize time clear) refs g hkeeps fun ref => ⟨h ref, hreach ref⟩
  exact ⟨hsame, fun ref => (hall ref).1⟩

/-! ## Steppers -/

/-- What a flush may do to a stepper. -/
structure Advanced (m m' : Member F) : Prop where
  window : m'.window = m.window
  model : m'.stepper.model = m.stepper.model
  queue : m'.stepper.queue = m.stepper.queue
  flushed_le : m.stepper.flushed ≤ m'.stepper.flushed

theorem Advanced.refl (m : Member F) : Advanced m m := ⟨rfl, rfl, rfl, le_refl _⟩

/-- A stepper whose queue has motion is advanced to the time, if it does not fail. -/
theorem advanceMember_spec (g : StepGenerator F) (time : F) (m : Member F) :
    Advanced m (g.advanceMember time m).1 ∧ ∀ steps, (g.advanceMember time m).2 = .ok steps →
      ∀ ref, m.stepper.queue = some ref → (g.queue ref).active ≠ #[] →
        time ≤ (g.advanceMember time m).1.stepper.flushed := by
  unfold advanceMember
  by_cases hidle : ((m.stepper.queue.map g.queue).map Queue.isEmpty).getD true = true
  · rw [if_pos hidle]
    refine ⟨.refl m, fun _ _ ref href hne => ?_⟩
    rw [href] at hidle
    simp [Queue.isEmpty] at hidle
    exact absurd hidle hne
  · rw [if_neg hidle]
    obtain ⟨hle, hok⟩ :=
      m.stepper.toStepTracker.advance_flushed m.stepper.model.kinematics (m.stepper.queue.map g.queue) time
    exact ⟨⟨rfl, rfl, rfl, hle⟩, fun steps ho _ _ _ => hok steps ho⟩

/-- If no stepper fails, all of those whose queue has motion are advanced. -/
theorem advanceMembers_spec (g : StepGenerator F) (time : F) :
    ∀ (members : List (Member F)) (report : StepReport F),
      List.Forall₂ Advanced members (g.advanceMembers time members report).1 ∧
        ∀ out, (g.advanceMembers time members report).2 = .ok out →
          ∀ m ∈ (g.advanceMembers time members report).1, ∀ ref, m.stepper.queue = some ref →
            (g.queue ref).active ≠ #[] → time ≤ m.stepper.flushed
  | [], _ => ⟨.nil, fun _ _ m hm => by cases hm⟩
  | m :: rest, report => by
    obtain ⟨hadv, htime⟩ := g.advanceMember_spec time m
    rw [advanceMembers_cons]
    rcases hm : g.advanceMember time m with ⟨m', e | steps⟩ <;> rw [hm] at hadv htime
    · -- The steppers behind one that fails stay as they are.
      exact ⟨.cons hadv (List.forall₂_same.2 fun m _ => .refl m), fun _ ho => by cases ho⟩
    · obtain ⟨hall, hout⟩ := advanceMembers_spec g time rest
        (if steps.isEmpty then report else report.insert m.stepper.name steps)
      refine ⟨.cons hadv hall, fun out ho m₁ hm₁ ref href hne => ?_⟩
      rcases List.mem_cons.1 hm₁ with rfl | hm₁
      · exact htime steps rfl ref (hadv.queue.symm.trans href) hne
      · exact hout out ho m₁ hm₁ ref href hne

end PrinterMotion.StepGenerator
