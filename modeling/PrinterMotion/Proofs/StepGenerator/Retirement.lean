/-
What flushes retire. A flush leaves each stepper of a queue at its step time at least, and retires of the
queue what ends by its flush delay before that. So a segment is gone too early for a stepper that looks back
further than the delay of a flush that has retired it, or that was not there yet, and for no other.
-/
import PrinterMotion.Proofs.StepGenerator.Holding
import PrinterMotion.Proofs.StepGenerator.Operations

namespace PrinterMotion.StepGenerator

variable {F : Type} [Exact F]

/-! ## Members -/

/-- A later state of the same stepper. -/
structure Carried (m m' : Member F) : Prop where
  queue : m'.stepper.queue = m.stepper.queue
  flushed_le : m.stepper.flushed ≤ m'.stepper.flushed

/-- The same steppers in a later state, maybe with others behind them. -/
def Grown (l l' : List (Member F)) : Prop :=
  ∀ (j : Nat) (m : Member F), l[j]? = some m → ∃ m', l'[j]? = some m' ∧ Carried m m'

theorem Grown.refl (l : List (Member F)) : Grown l l := fun _ m hm => ⟨m, hm, rfl, le_refl _⟩

theorem Grown.trans {l l' l'' : List (Member F)} (h : Grown l l') (h' : Grown l' l'') : Grown l l'' := by
  intro j m hm
  obtain ⟨m', hm', hq, hf⟩ := h j m hm
  obtain ⟨m'', hm'', hq', hf'⟩ := h' j m' hm'
  exact ⟨m'', hm'', hq'.trans hq, hf.trans hf'⟩

theorem grown_append (l new : List (Member F)) : Grown l (l ++ new) := by
  intro j m hm
  obtain ⟨hj, -⟩ := List.getElem?_eq_some_iff.1 hm
  exact ⟨m, by rw [List.getElem?_append_left hj, hm], rfl, le_refl _⟩

theorem grown_of_forall₂ {R : Member F → Member F → Prop} {l l' : List (Member F)} (h : List.Forall₂ R l l')
    (hR : ∀ m m', R m m' → Carried m m') : Grown l l' := by
  induction h with
  | nil => exact .refl []
  | cons hm _ ih =>
    rintro (_ | j) m hj
    · cases hj
      exact ⟨_, rfl, hR _ _ hm⟩
    · exact ih j m hj

/-! ## Operations on steppers -/

/-- The generator `g'` has the steppers of `g` in a later state, and its queues as they are there. -/
structure Outfitted (g g' : StepGenerator F) : Prop where
  grown : Grown g.members g'.members
  queue : ∀ ref, g'.queue ref = g.queue ref

variable {g g' g'' : StepGenerator F}

theorem Outfitted.refl (g : StepGenerator F) : Outfitted g g := ⟨.refl _, fun _ => rfl⟩

theorem Outfitted.trans (h : Outfitted g g') (h' : Outfitted g' g'') : Outfitted g g'' :=
  ⟨h.grown.trans h'.grown, fun ref => (h'.queue ref).trans (h.queue ref)⟩

theorem Outfitted.mem (h : Outfitted g g') {ref : QueueRef} {s : Segment F} (hs : s ∈ (g.queue ref).active) :
    s ∈ (g'.queue ref).active := by
  rwa [h.queue]

theorem outfitted_refreshWindows (g : StepGenerator F) : Outfitted g g.refreshWindows := by
  obtain ⟨scanTimes, flushDelay, heq⟩ := refreshWindows_same g
  rw [heq]
  refine ⟨fun j m hm => ⟨{ m with window := m.stepper.model.scanWindow }, ?_, rfl, le_refl _⟩, fun ref => ?_⟩
  · rw [List.getElem?_map, hm]
    rfl
  · cases ref <;> rfl

theorem outfitted_refitted {members : List (Member F)} (h : List.Forall₂ Refitted g.members members) :
    Outfitted g { g with members } := by
  refine ⟨grown_of_forall₂ h ?_, fun ref => by cases ref <;> rfl⟩
  rintro m m' ⟨model, rfl⟩
  exact ⟨rfl, le_refl _⟩

theorem outfitted_fitted (h : Fitted g g') : Outfitted g g' := by
  cases h with
  | same => exact .refl g
  | @refreshed toolhead mode members models =>
    have hmode : Outfitted g { g with activeToolhead := toolhead, activeMode := mode } :=
      ⟨.refl _, fun ref => by cases ref <;> rfl⟩
    exact (hmode.trans (outfitted_refitted models)).trans (outfitted_refreshWindows _)

theorem outfitted_addStepper (g : StepGenerator F) (s : Stepper F) : Outfitted g (g.addStepper s) := by
  refine ⟨?_, fun ref => ?_⟩
  · rw [addStepper_members]
    exact grown_append _ _
  · simp only [addStepper]
    split <;> cases ref <;> rfl

/-- A new generator after operations. -/
def acted (ops : List (Operation F)) : StepGenerator F := empty.operated ops

/-- A flush at `time` succeeds, and retires what ends by its flush delay before its step time. -/
structure Retires (g : StepGenerator F) (time : F) (s : Segment F) : Prop where
  succeeds : ∃ report, (g.flush time).2 = .ok report
  finish_le : s.finish ≤ g.stepTime time - g.refreshWindows.flushDelay

/-! ## Flushes -/

/-- Queueing motion drops nothing. -/
theorem mem_replay (c : Call F) {ref : QueueRef} {s : Segment F} (hs : s ∈ (g.queue ref).active) :
    s ∈ ((g.replay c).queue ref).active := by
  rw [replay_eq]
  cases c.motion with
  | none => exact hs
  | some motion =>
    obtain ⟨target, t⟩ := motion
    refine forall_queue_setQueue (P := fun other q => s ∈ (g.queue other).active → s ∈ q.active) (fun _ hs => hs)
      (fun hs => ?_) ref hs
    obtain ⟨taken, grown, -, -, hrow⟩ := Queue.addAll_grows t.segments (g.queue target)
    rw [← Array.mem_toList_iff, Queue.append, hrow]
    exact List.mem_append_left _ (Array.mem_toList_iff.2 hs)

/-- Holding a queue drops nothing. -/
theorem mem_held (g : StepGenerator F) (time : F) {ref : QueueRef} {s : Segment F}
    (hs : s ∈ (g.queue ref).active) : s ∈ ((g.held time).queue ref).active := by
  refine (holdQueues_keeps (fun other q => other = ref → s ∈ q.active) (g.stepTime time)
    (fun other q q' hq hhold ho => ?_) _ g.refreshWindows fun other ho => ?_).2 ref rfl
  · obtain ⟨q'', hhold', hrow⟩ := q.holdUntil_row (g.stepTime time)
    rw [hhold] at hhold'
    cases hhold'
    have hmem := Array.mem_toList_iff.2 (hq ho)
    rw [← Array.mem_toList_iff]
    rcases hrow with hrow | ⟨last, -, u, -, hrow⟩
    · rwa [hrow]
    · rw [hrow]
      exact List.mem_append_left _ hmem
  · rw [ho, (outfitted_refreshWindows g).queue]
    exact hs

theorem Advanced.carried {m m' : Member F} (h : Advanced m m') : Carried m m' := ⟨h.queue, h.flushed_le⟩

theorem mem_finalizeQueues {time : F} (clear : F) {ref : QueueRef} {s : Segment F}
    (hs : s ∈ (g.queue ref).active) (ht : time < s.finish) :
    s ∈ ((g.finalizeQueues time clear).queue ref).active := by
  refine (foldl_setQueue (fun other q => other = ref → s ∈ q.active) (fun q => q.finalize time clear) _ g
    (fun other _ q hq ho => ?_) fun other ho => by rwa [ho]).2 ref rfl
  have hmem := Array.mem_toList_iff.2 (hq ho)
  rw [← Array.mem_toList_iff, Queue.finalize_active]
  rw [← List.takeWhile_append_dropWhile (p := fun s => decide (s.finish ≤ time)) (l := q.active.toList)] at hmem
  refine (List.mem_append.1 hmem).resolve_left fun hgone => ?_
  have hfinish := List.mem_takeWhile_imp hgone
  exact absurd (of_decide_eq_true hfinish) (not_le.2 ht)

/-- A flush takes no stepper back, and keeps each segment or retires it. If it retires one, it has advanced
the steppers of that queue to its step time. -/
theorem flush_step (g : StepGenerator F) (time : F) : Grown g.members (g.flush time).1.members ∧
    ∀ (ref : QueueRef) (s : Segment F), s ∈ (g.queue ref).active →
      s ∈ ((g.flush time).1.queue ref).active ∨ g.Retires time s ∧
        ∀ m ∈ (g.flush time).1.members, m.stepper.queue = some ref → g.stepTime time ≤ m.stepper.flushed := by
  obtain ⟨hall, hout⟩ := advanceMembers_spec (g.held time) (g.stepTime time) g.refreshWindows.members []
  have hgrown := (outfitted_refreshWindows g).grown.trans (grown_of_forall₂ hall fun _ _ hm => hm.carried)
  have hflush := flush_eq g time
  rw [flush_members, refusal?_eq_none]
  refine ⟨hgrown, fun ref s hs => ?_⟩
  have hheld := mem_held g time hs
  rcases hadv : (g.held time).advanceMembers (g.stepTime time) g.refreshWindows.members [] with
    ⟨members, e | report⟩ <;> rw [hadv] at hflush hout
  · -- A flush that fails retires nothing.
    left
    rw [hflush]
    cases ref <;> exact hheld
  rcases lt_or_ge (g.stepTime time - g.refreshWindows.flushDelay) s.finish with hlate | hearly
  · have hadvanced : s ∈ (({ g.held time with members } : StepGenerator F).queue ref).active := by
      cases ref <;> exact hheld
    have hkept := mem_finalizeQueues (g.stepTime time - historyTime) hadvanced hlate
    left
    rw [hflush]
    cases ref <;> exact hkept
  · refine .inr ⟨⟨⟨report, by rw [hflush]⟩, hearly⟩, fun m hm href => hout report rfl m hm ref href ?_⟩
    exact Array.ne_empty_of_mem hheld

/-! ## Runs -/

/-- No operation takes a stepper back, and each keeps every segment, if it is not a flush that retires it. -/
theorem operate_step (g : StepGenerator F) (op : Operation F) : Grown g.members (g.operate op).members ∧
    ∀ (ref : QueueRef) (s : Segment F), s ∈ (g.queue ref).active →
      s ∈ ((g.operate op).queue ref).active ∨ ∃ time, op = .call (.flush time) ∧ g.Retires time s ∧
        ∀ m ∈ (g.flush time).1.members, m.stepper.queue = some ref → g.stepTime time ≤ m.stepper.flushed := by
  generalize hg : g.operate op = g'
  cases hg ▸ g.operated_operate op with
  | added s =>
    have hout := outfitted_addStepper g s
    exact ⟨hout.grown, fun ref u hu => .inl (hout.mem hu)⟩
  | fitted _ hfitted =>
    have hout := outfitted_fitted hfitted
    exact ⟨hout.grown, fun ref s hs => .inl (hout.mem hs)⟩
  | @queued c =>
    obtain ⟨toolhead, extras, hsame⟩ := g.sameBut_replay c
    exact ⟨by rw [hsame]; exact .refl _, fun ref s hs => .inl (mem_replay c hs)⟩
  | flushed time =>
    obtain ⟨hgrown, hqueue⟩ := flush_step g time
    exact ⟨hgrown, fun ref s hs => (hqueue ref s hs).imp_right fun h => ⟨time, rfl, h⟩⟩
  | remodelled models =>
    have hout := outfitted_refitted models
    exact ⟨hout.grown, fun ref s hs => .inl (hout.mem hs)⟩
  | noted new old => exact ⟨.refl _, fun ref s hs => .inl (by cases ref <;> exact hs)⟩

theorem operated_grown : ∀ (ops : List (Operation F)) (g : StepGenerator F), Grown g.members (g.operated ops).members
  | [], _ => .refl _
  | op :: rest, g => (operate_step g op).1.trans (operated_grown rest (g.operate op))

/-- A segment stays until a flush retires it, and from then on the steppers of its queue are beyond the step
time of that flush. -/
theorem operated_retires {ref : QueueRef} {s : Segment F} : ∀ (ops : List (Operation F)) {g : StepGenerator F},
    s ∈ (g.queue ref).active → s ∈ ((g.operated ops).queue ref).active ∨
      ∃ done time rest, ops = done ++ .call (.flush time) :: rest ∧ (g.operated done).Retires time s ∧
        ∀ m ∈ ((g.operated done).flush time).1.members, m.stepper.queue = some ref →
          (g.operated done).stepTime time ≤ m.stepper.flushed
  | [], _, hs => .inl hs
  | op :: rest, g, hs => by
    rcases (operate_step g op).2 ref s hs with hs' | ⟨time, rfl, hretires, hall⟩
    · refine (operated_retires rest hs').imp_right ?_
      rintro ⟨done, time, later, rfl, hretires⟩
      exact ⟨op :: done, time, later, rfl, hretires⟩
    · exact .inr ⟨[], time, rest, rfl, hretires, hall⟩

/-- After any operations, all motion that a stepper can look back on from behind its last flush is still queued,
but for what an earlier flush has retired with a delay smaller than the stepper looks back now, or before the
stepper was there. -/
theorem queued_or_retired {before after : List (Operation F)} {ref : QueueRef} {s : Segment F}
    (hs : s ∈ ((acted before).queue ref).active) (time : F) {j : Nat} {m : Member F}
    (hm : (acted (before ++ after)).members[j]? = some m) (href : m.stepper.queue = some ref) {t : F}
    (ht : m.stepper.flushed < t) (hback : t - m.stepper.model.after < s.finish) :
    s ∈ (((acted (before ++ after)).held time).queue ref).active ∨
      ∃ done flushTime rest, before ++ after = done ++ .call (.flush flushTime) :: rest ∧
        (acted done).Retires flushTime s ∧
        ((acted done).refreshWindows.flushDelay < m.stepper.model.after ∨ (acted done).members.length ≤ j) := by
  have hsplit : ∀ done, acted (before ++ done) = (acted before).operated done := fun _ => List.foldl_append
  rw [hsplit] at hm ⊢
  rcases operated_retires after hs with hqueued | ⟨done, flushTime, rest, rfl, hretires, hall⟩
  · exact .inl (mem_held _ time hqueued)
  refine .inr ⟨before ++ done, flushTime, rest, by rw [List.append_assoc], by rwa [hsplit], ?_⟩
  rw [hsplit]
  -- The stepper was there at the flush, so it has come to its step time at least.
  refine or_iff_not_imp_right.2 fun hj => ?_
  rw [not_le] at hj
  obtain ⟨m₁, hm₁, -⟩ := (flush_step _ flushTime).1 j _ (List.getElem?_eq_getElem hj)
  have hrest := operated_grown rest (((acted before).operated done).flush flushTime).1
  obtain ⟨m₂, hm₂, hqueue, hflushed⟩ := hrest j m₁ hm₁
  rw [operated, List.foldl_append, List.foldl_cons] at hm
  obtain rfl : m₂ = m := Option.some.inj (hm₂.symm.trans hm)
  have hreached := hall m₁ (List.mem_of_getElem? hm₁) (hqueue.symm.trans href)
  have hfinish := hretires.finish_le
  show ((acted before).operated done).refreshWindows.flushDelay < _
  linarith

/-- An extruder without pressure advance, and a second of filament motion. -/
def extruded : List (Operation ℚ) := [
  .prepare (.addStepper { Stepper.new "e" (3 / 10) (.extruder .off) with queue := some (.extra "e") }),
  .call (.extrude (.extra "e") 1 ⟨1, 0, 1, 0, 1, 0⟩ 0 4)]

/-- A flush when that motion has just ended, and pressure advance with a long smoothing time. -/
def smoothedLate : List (Operation ℚ) := [.call (.flush (201 / 100)), .prepare (.setPressureAdvance "e" 0 4)]

theorem smoothedLate_held : ∀ u ∈ (((acted (extruded ++ smoothedLate)).held 6).queue (.extra "e")).active,
    u.isStill = true := by decide +kernel

/-- The flush that ends with the motion has retired it, and the extruder looks back on it afterwards. -/
theorem queued_or_retired_smoothedLate : ∃ s ∈ ((acted extruded).queue (.extra "e")).active, s.isStill = false ∧
    ∃ done flushTime rest, extruded ++ smoothedLate = done ++ .call (.flush flushTime) :: rest ∧
      (acted done).Retires flushTime s := by
  obtain ⟨s, hs, hmoves, hfinish⟩ : ∃ s ∈ ((acted extruded).queue (.extra "e")).active,
      s.isStill = false ∧ 3 - 2 < s.finish := by decide +kernel
  obtain ⟨m, hm, href, hafter, hflushed⟩ : ∃ m ∈ (acted (extruded ++ smoothedLate)).members,
      m.stepper.queue = some (.extra "e") ∧ m.stepper.model.after = 2 ∧ m.stepper.flushed < 3 := by decide +kernel
  obtain ⟨j, hj⟩ := List.getElem?_of_mem hm
  refine ⟨s, hs, hmoves, ?_⟩
  rcases queued_or_retired hs 6 hj href hflushed (by rwa [hafter]) with hqueued | ⟨done, time, rest, heq, hretires, -⟩
  · rw [smoothedLate_held s hqueued] at hmoves
    cases hmoves
  · exact ⟨done, time, rest, heq, hretires⟩

/-- Windows may become wider after motion has been retired with a smaller delay. Then a flush takes positions
for which it would have to look back on that motion. -/
theorem not_queued_after_widening : ¬ ∀ (before after : List (Operation ℚ)) (ref : QueueRef) (s : Segment ℚ)
    (time : ℚ) (m : Member ℚ) (t : ℚ), (∀ op ∈ before ++ after, op.isTold = true) →
    s ∈ ((acted before).queue ref).active → s.isStill = false →
    m ∈ (acted (before ++ after)).members → m.stepper.queue = some ref →
    m.stepper.toStepTracker.Consults m.stepper.model.kinematics (((acted (before ++ after)).held time).queue ref)
      ((acted (before ++ after)).stepTime time) t →
    s.start < t → t - m.stepper.model.after < s.finish →
    s ∈ (((acted (before ++ after)).held time).queue ref).active := by
  intro h
  obtain ⟨s, hs, hmoves, hstart, hfinish⟩ : ∃ s ∈ ((acted extruded).queue (.extra "e")).active,
      s.isStill = false ∧ s.start < (20091 / 10000 : ℚ) ∧ 20091 / 10000 - 2 < s.finish := by decide +kernel
  obtain ⟨m, hm, href, hafter, hne⟩ : ∃ m ∈ (acted (extruded ++ smoothedLate)).members,
      m.stepper.queue = some (.extra "e") ∧ m.stepper.model.after = 2 ∧
      ((m.stepper.toStepTracker.advance (m.stepper.model.kinematics.withPosition fun c u =>
          if c.current.start + u = 20091 / 10000 then 42 / 10 else m.stepper.model.kinematics.position c u)
        (some (((acted (extruded ++ smoothedLate)).held 6).queue (.extra "e")))
        ((acted (extruded ++ smoothedLate)).stepTime 6)).2.toOption.map Array.size) ≠
      ((m.stepper.toStepTracker.advance m.stepper.model.kinematics
        (some (((acted (extruded ++ smoothedLate)).held 6).queue (.extra "e")))
        ((acted (extruded ++ smoothedLate)).stepTime 6)).2.toOption.map Array.size) := by
    decide +kernel
  have hqueued := h extruded smoothedLate (.extra "e") s 6 m (20091 / 10000) (by decide) hs hmoves hm href
    ⟨42 / 10, fun heq => hne (by rw [heq])⟩ hstart (by rwa [hafter])
  rw [smoothedLate_held s hqueued] at hmoves
  cases hmoves

end PrinterMotion.StepGenerator
