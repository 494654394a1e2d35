/-
No steps in flushed time. A flush that finds motion in a queue holds the queue until its step time, brings
the steppers of the queue there, and leaves the end of the queue where it is. From then on the queue refuses
motion in front of that time, up to the tolerance that each motion may take, and no step of these steppers is
at or before it. A queue without motion is passed over, and so are its steppers.
-/
import PrinterMotion.Proofs.StepGenerator.Holding
import PrinterMotion.Proofs.StepGenerator.Losses
import PrinterMotion.Proofs.StepGenerator.Setup

namespace PrinterMotion

variable {F : Type} [Exact F]

/-! ## Steps of one stepper -/

namespace Search

/-- The steps of a range lie in it, also if they do not follow the latest step and the search ends there. -/
theorem run_range {eval : F → Except (StepError F) F} {d start finish : F} (base : F) :
    ∀ (fuel : Nat) (s : Search F) (steps : Array (Step F)) (lastStep : Option F), Ready start finish s →
      ∀ u ∈ (run eval base d finish fuel s steps lastStep).steps,
        u ∈ steps ∨ base + start < u.time ∧ u.time ≤ base + finish
  | 0, _, _, _, _, u, hu => .inl hu
  | fuel + 1, s, steps, lastStep, hr, u, hu => by
    have ready : ∀ r r', Ready start finish r → Probes eval d finish r false r' →
        Ready start finish r' := fun r r' hr hp => (hp.ready hr).1
    unfold run at hu
    rcases hunt_cases ready base maxIterations s hr with
      ⟨s', hs, r, hready, hp⟩ | ⟨s', hs, -⟩ | ⟨t, n, hs⟩ | ⟨t, e, -, hs⟩ <;> simp only [hs] at hu
    · obtain ⟨hlt, hle, hkeep⟩ := hp.found hready
      have hstart := hready.start_le
      split at hu
      · have hadv : Ready start finish (s'.advance d finish) :=
          advance_ready (hstart.trans hkeep.ge) (by rw [hkeep]; exact hlt) hle
        refine (run_range base fuel _ _ _ hadv u hu).elim (fun hu => ?_) .inr
        refine (Array.mem_push.1 hu).imp_right ?_
        rintro rfl
        exact ⟨by dsimp only; linarith, by dsimp only; linarith⟩
      · exact .inl hu
    · exact .inl hu
    · exact .inl hu
    · exact .inl hu

end Search

namespace StepTracker

variable {k : Kinematics F} {q : Queue F} {flushed time : F}

theorem searchSegment_range {s s' : StepTracker F} {v : Visit F} {steps out : Array (Step F)}
    (hv : flushed ≤ v.start ∧ v.stop ≤ time) (h : s.searchSegment k q v steps = (s', .ok out)) :
    ∀ u ∈ out, u ∈ steps ∨ flushed < u.time ∧ u.time ≤ time := by
  rw [searchSegment_eq] at h
  cases hc : q.cursor? v.segment with
  | none =>
    simp only [search?, hc, Option.bind_none] at h
    cases h
    exact fun u hu => .inl hu
  | some c =>
    obtain ⟨m, hm, hcur⟩ := Queue.cursor?_eq_some hc
    rw [search?_eq hc hcur] at h
    by_cases hrange : v.upper m ≤ v.lower m
    · rw [if_pos hrange] at h
      cases h
      exact fun u hu => .inl hu
    rw [if_neg hrange] at h
    simp only [settle] at h
    split at h
    · cases h
    · cases h
      rw [not_le] at hrange
      intro u hu
      have hlow : v.start ≤ v.lower m := le_max_left _ _
      have hupp : v.upper m ≤ v.stop := min_le_left _ _
      refine (Search.run_range m.start stepLimit _ steps s.lastStep
        (Search.begin_ready s.commanded s.stepDistance s.forward (sub_lt_sub_right hrange m.start)) u hu).imp_right ?_
      rintro ⟨hlo, hhi⟩
      exact ⟨by linarith [hv.1], by linarith [hv.2]⟩

theorem runVisits_range : ∀ (vs : List (Visit F)) {s s' : StepTracker F} {steps out : Array (Step F)},
    (∀ v ∈ vs, flushed ≤ v.start ∧ v.stop ≤ time) → runVisits k q vs s steps = (s', .ok out) →
      ∀ u ∈ out, u ∈ steps ∨ flushed < u.time ∧ u.time ≤ time
  | [], _, _, _, _, _, h, u, hu => by
    cases h
    exact .inl hu
  | v :: rest, _, _, _, _, hvs, h, u, hu => by
    obtain ⟨s₁, steps₁, hfirst, hrest⟩ := runVisits_cons_ok h
    rcases runVisits_range rest (fun v hv => hvs v (List.mem_cons_of_mem _ hv)) hrest u hu with hu | hu
    · exact searchSegment_range (hvs v List.mem_cons_self) hfirst u hu
    · exact .inr hu

/-- Whatever its queue is like, a stepper is advanced by steps behind its last flush. -/
theorem advance_range {s : StepTracker F} {queue : Option (Queue F)} {out : Array (Step F)}
    (h : (s.advance k queue time).2 = .ok out) : ∀ u ∈ out, s.flushed < u.time ∧ u.time ≤ time := by
  intro u hu
  rcases advance_cases s k queue time with ⟨⟨answer, hs, hcase⟩, -⟩ | ⟨q, finish, rfl, -, -, -, hs, -⟩ <;> rw [hs] at h
  · rcases hcase with ⟨rfl, -⟩ | ⟨finish, rfl⟩
    · cases h
      simp at hu
    · cases h
  · exact (runVisits_range _ (s.visits_range k q time) (Prod.ext rfl h) u hu).resolve_left (by simp)

end StepTracker

/-! ## The end of a queue -/

theorem Grows.getLast?_eq {last : Option (Segment F)} {taken grown : List (Segment F)} (h : Grows last taken grown) :
    grown.getLast? = taken.getLast? := by
  induction h with
  | nil => rfl
  | take hd hf h ih => rw [List.getLast?_append, List.getLast?_cons, List.getLast?_cons, ih]; rfl

theorem Fills.le_start {last s : Segment F} {front : List (Segment F)} (h : Fills (some last) s front) :
    last.finish ≤ s.start + joinTolerance := by
  cases h with
  | gap hb =>
    have hfinish := hb.finish
    have hstart := hb.start
    have hlasts := hb.lasts
    have htol := Queue.joinTolerance_pos (F := F)
    unfold Segment.finish at hfinish
    linarith
  | meet hm => linarith [(abs_le.1 hm).1]

namespace Queue

variable {q q' : Queue F}

/-- Motion that is queued takes the end of a queue back by the tolerance at most. -/
theorem append_finish {last : Segment F} (hlast : last ∈ q.active.back?) (t : Trapezoid F) :
    ∃ last' ∈ (q.append t).1.active.back?, last.finish ≤ last'.finish + joinTolerance := by
  obtain ⟨taken, grown, hpre, hgrows, hrow⟩ := addAll_grows t.segments q
  have hback : q.active.toList.getLast? = some last := by rwa [Array.getLast?_toList]
  rw [append, ← Array.getLast?_toList, hrow, List.getLast?_append, hgrows.getLast?_eq, hback]
  rw [Option.mem_def.1 hlast] at hgrows
  cases hgrows with
  | nil => exact ⟨last, rfl, by linarith [joinTolerance_pos (F := F)]⟩
  | @take _ s front taken grown hd hf h =>
    obtain ⟨u, hu⟩ := Option.isSome_iff_exists.1 (List.getLast?_isSome.2 (List.cons_ne_nil s taken))
    refine ⟨u, by rw [hu]; rfl, ?_⟩
    -- The last segment is not in front of the first one, which joins the queue.
    have hjoined := t.segments_joined
    have hstart : s.start ≤ u.start := by
      have hs : s ∈ t.segments := hpre.subset List.mem_cons_self
      obtain ⟨rest, hsegs⟩ := hpre
      rw [← hsegs] at hjoined
      rw [hjoined.1]
      exact hjoined.le_start u (List.mem_append_left _ (List.mem_of_getLast? hu))
    have hlasts := hjoined.duration_nonneg u (hpre.subset (List.mem_of_getLast? hu))
    have := hf.le_start
    unfold Segment.finish at *
    linarith

/-- Motion that begins by more than the tolerance before the end of a queue is refused, and the queue stays
as it is. -/
theorem append_early {last : Segment F} (hlast : last ∈ q.active.back?) {t : Trapezoid F} (ht : t.segments ≠ [])
    (hearly : t.start + joinTolerance < last.finish) :
    q.append t = (q, some (.outOfOrder t.start last.finish)) := by
  have hjoined := t.segments_joined
  rw [append]
  cases hsegs : t.segments with
  | nil => exact absurd hsegs ht
  | cons s rest =>
    rw [hsegs] at hjoined
    obtain ⟨hstart, hd, -⟩ := hjoined
    dsimp only at hstart
    simp only [addAll, add, Scalar.isFinite_eq, Scalar.zero_literal, Bool.not_true, Bool.false_or, decide_eq_true_eq,
      Option.mem_def.1 hlast, hstart]
    rw [if_neg (not_lt.2 hd), if_pos (by linarith)]

/-- A hold leaves the end of a queue where it is, or puts it at its time if that is later. -/
theorem holdUntil_reaches (q : Queue F) (time : F) : ∃ q', q.holdUntil time = .ok q' ∧ q'.Reaches time ∧
    ∀ last ∈ q.active.back?, ∃ last' ∈ q'.active.back?, last.finish ≤ last'.finish := by
  obtain ⟨q', hhold, -⟩ := q.holdUntil_row time
  refine ⟨q', hhold, ?_⟩
  unfold Reaches
  unfold holdUntil at hhold
  split at hhold
  · rename_i hnone
    cases hhold
    rw [hnone]
    exact ⟨nofun, nofun⟩
  · rename_i last hlast
    rw [hlast]
    dsimp only at hhold
    split at hhold
    · rename_i hle
      cases hhold
      rw [hlast]
      exact ⟨fun _ h => by cases h; exact hle, fun _ h => ⟨_, h, le_refl _⟩⟩
    · rename_i hlate
      rw [add_back? hhold]
      have hfinish : (Segment.hold last.finish (time - last.finish) last.target).finish = time :=
        add_sub_cancel last.finish time
      refine ⟨fun _ h => by cases h; exact hfinish.ge, fun _ h => ⟨_, rfl, ?_⟩⟩
      cases h
      exact (not_le.1 hlate).le.trans hfinish.ge

theorem finalize_back? {time stop : F} (hq : q.Reaches stop) (ht : time < stop) (clear : F) :
    (q.finalize time clear).active.back? = q.active.back? := by
  rw [← Array.getLast?_toList, ← Array.getLast?_toList, finalize_active]
  rcases List.eq_nil_or_concat q.active.toList with hnil | ⟨init, last, hrow⟩
  · rw [hnil]
    rfl
  · rw [List.concat_eq_append] at hrow
    have hlate : time < last.finish := ht.trans_le (hq last (by rw [← Array.getLast?_toList, hrow]; simp))
    have hstays : [last].dropWhile (fun s => decide (s.finish ≤ time)) = [last] :=
      List.dropWhile_cons_of_neg (by simpa using hlate)
    rw [hrow, List.dropWhile_append, hstays]
    split <;> simp

end Queue

theorem StepReport.mem_get_put {α : Type} {name other : String} {steps : Array (Step α)} {r : StepReport α}
    {u : Step α} (h : u ∈ (if steps.isEmpty then r else r.insert name steps).get other) :
    u ∈ r.get other ∨ other = name ∧ u ∈ steps := by
  by_cases ho : other = name
  · subst ho
    split at h
    · exact .inl h
    · rw [get, lookup_insert, if_pos rfl, Option.getD_some] at h
      exact .inr ⟨rfl, h⟩
  · rw [get_put_ne ho] at h
    exact .inl h

namespace StepGenerator

/-! ## One flush -/

theorem advanceMember_range {g : StepGenerator F} {time : F} {m : Member F} {steps : Array (Step F)}
    (h : (g.advanceMember time m).2 = .ok steps) : ∀ u ∈ steps, m.stepper.flushed < u.time := by
  intro u hu
  unfold advanceMember at h
  split at h
  · cases h
    simp at hu
  · exact (StepTracker.advance_range h u hu).1

/-- Each step of a report is one of a stepper of its name, and behind the last flush of that stepper. -/
theorem advanceMembers_range (g : StepGenerator F) (time : F) : ∀ (members : List (Member F))
    (report : StepReport F) {out : StepReport F}, (g.advanceMembers time members report).2 = .ok out →
      ∀ name, ∀ u ∈ out.get name, u ∈ report.get name ∨
        ∃ m ∈ members, m.stepper.name = name ∧ m.stepper.flushed < u.time
  | [], _, _, h, name, u, hu => by
    cases h
    exact .inl hu
  | m :: rest, report, out, h, name, u, hu => by
    rw [advanceMembers_cons] at h
    rcases hm : g.advanceMember time m with ⟨m', e | steps⟩ <;> rw [hm] at h
    · cases h
    · rcases advanceMembers_range g time rest _ h name u hu with hold | ⟨m₁, hm₁, hrest⟩
      · refine (StepReport.mem_get_put hold).imp_right ?_
        rintro ⟨rfl, hsteps⟩
        exact ⟨m, List.mem_cons_self, rfl, advanceMember_range (by rw [hm]) u hsteps⟩
      · exact .inr ⟨m₁, List.mem_cons_of_mem _ hm₁, hrest⟩

/-- A generator whose windows are up to date and whose steppers all have a queue that flushes keep up. -/
structure Upkept (g : StepGenerator F) : Prop where
  current : ∀ m ∈ g.members, m.window = m.stepper.model.scanWindow
  delay_pos : 0 < g.flushDelay
  served : ∀ m ∈ g.members, ∃ ref ∈ g.servedQueues, m.stepper.queue = some ref

variable {g : StepGenerator F} {ref : QueueRef}

theorem Upkept.refreshWindows_eq (h : g.Upkept) : g.refreshWindows = g := StepGenerator.refreshWindows_eq h.current

/-- Holding leaves the end of each queue that is kept up at the step time or behind it. -/
theorem Upkept.held (h : g.Upkept) (time : F) : SameBut g (g.held time) ∧
    (∀ ref, ∀ last ∈ (g.queue ref).active.back?, ∃ last' ∈ ((g.held time).queue ref).active.back?,
      last.finish ≤ last'.finish) ∧
    ∀ ref ∈ g.servedQueues, ((g.held time).queue ref).Reaches (g.stepTime time) := by
  obtain ⟨g', hhold, hsame, hfinish, hreach, -⟩ := holdQueues_spec
    (fun ref q => ∀ last ∈ (g.queue ref).active.back?, ∃ last' ∈ q.active.back?, last.finish ≤ last'.finish)
    (fun q => q.Reaches (g.stepTime time)) (g.stepTime time) (fun ref q hq => by
      obtain ⟨q', hhold, hreach, hq'⟩ := q.holdUntil_reaches (g.stepTime time)
      refine ⟨q', hhold, fun last hlast => ?_, hreach⟩
      obtain ⟨last₁, hlast₁, hle₁⟩ := hq last hlast
      obtain ⟨last₂, hlast₂, hle₂⟩ := hq' last₁ hlast₁
      exact ⟨last₂, hlast₂, hle₁.trans hle₂⟩)
    g.servedQueues g fun _ last hlast => ⟨last, hlast, le_refl _⟩
  have hheld : g.held time = g' := by rw [StepGenerator.held, h.refreshWindows_eq, hhold]
  rw [hheld]
  exact ⟨hsame, hfinish, hreach⟩

/-- Retiring in front of where the queues reach leaves their ends alone. -/
theorem finalizeQueues_back? {time stop : F} (hreach : ∀ ref ∈ g.servedQueues, (g.queue ref).Reaches stop)
    (ht : time < stop) (clear : F) : SameBut g (g.finalizeQueues time clear) ∧
      ∀ ref, ((g.finalizeQueues time clear).queue ref).active.back? = (g.queue ref).active.back? := by
  refine finalize_spec (fun ref q => q.active.back? = (g.queue ref).active.back?) (fun ref q hq hr => ?_)
    g.servedQueues g (fun _ => rfl) hreach
  have hback := Queue.finalize_back? hr ht clear
  refine ⟨hback.trans hq, ?_⟩
  unfold Queue.Reaches
  rwa [hback]

/-! ## Calls -/

/-- The queue that a call gives motion to. -/
def Call.target? (c : Call F) : Option QueueRef := c.motion.map Prod.fst

/-- Why a call is refused, if it is. -/
def fault? (g : StepGenerator F) : Call F → Option (GeneratorError F)
  | .move time start finish maxVelocity accel =>
    match (g.queueMove time start finish maxVelocity accel).2 with
    | .ok _ => none
    | .error e => some e
  | .extrude ref time timing start distance => (g.queueExtrusion ref time timing start distance).2
  | .flush time =>
    match (g.flush time).2 with
    | .ok _ => none
    | .error e => some e

/-- A call is refused when its motion is. -/
theorem fault?_eq (g : StepGenerator F) {c : Call F} {t : Queue.Trapezoid F} (hc : c.motion = some (ref, t)) :
    g.fault? c = ((g.queue ref).append t).2.map .queue := by
  cases c with
  | flush time => cases hc
  | move time start finish maxVelocity accel =>
    simp only [Call.motion] at hc
    split at hc
    · cases hc
    · rename_i hmoves
      cases hc
      simp only [fault?, queueMove, if_neg hmoves, queue]
      rcases g.toolhead.append _ with ⟨toolhead, _ | e⟩ <;> rfl
  | extrude target time timing start distance =>
    simp only [Call.motion] at hc
    split at hc
    · cases hc
    · rename_i hmoves
      cases hc
      simp only [fault?, queueExtrusion, if_neg hmoves]

theorem run_of_motion (g : StepGenerator F) {c : Call F} {t : Queue.Trapezoid F} (hc : c.motion = some (ref, t)) :
    g.run c = g.setQueue ref ((g.queue ref).append t).1 := by
  have hreplay := replay_eq g c
  rw [hc] at hreplay
  cases c with
  | flush time => cases hc
  | move => exact hreplay
  | extrude => exact hreplay

/-- What a call may do to its generator: no stepper is taken back, and the end of a queue by its slack at
most. -/
structure Steps (g g' : StepGenerator F) (slack : QueueRef → F) : Prop where
  members : List.Forall₂ Advanced g.members g'.members
  flushDelay : g'.flushDelay = g.flushDelay
  served : g'.served = g.served
  finish : ∀ ref, ∀ last ∈ (g.queue ref).active.back?, ∃ last' ∈ (g'.queue ref).active.back?,
    last.finish ≤ last'.finish + slack ref

/-- What a flush with a step time does when it succeeds. -/
structure Completes (g : StepGenerator F) (stepTime : F) (report : StepReport F) (g' : StepGenerator F) : Prop where
  lastFlush : g'.lastFlush = stepTime
  reaches : ∀ ref ∈ g.servedQueues, (g'.queue ref).Reaches stepTime
  flushed : ∀ m ∈ g'.members, ∀ ref, m.stepper.queue = some ref → (g.queue ref).active.back?.isSome →
    stepTime ≤ m.stepper.flushed
  steps : ∀ name, ∀ u ∈ report.get name, ∃ m ∈ g.members, m.stepper.name = name ∧ m.stepper.flushed < u.time

theorem Upkept.flush (h : g.Upkept) (time : F) : Steps g (g.flush time).1 (fun _ => 0) ∧
    ((∃ e, (g.flush time).2 = .error e) ∧ (g.flush time).1.lastFlush = g.lastFlush ∨
      ∃ report, (g.flush time).2 = .ok report ∧ g.Completes (g.stepTime time) report (g.flush time).1) := by
  obtain ⟨⟨toolhead, extras, hsame⟩, hfinish, hreach⟩ := h.held time
  obtain ⟨hall, hout⟩ := advanceMembers_spec (g.held time) (g.stepTime time) g.members []
  rw [flush_eq, h.refreshWindows_eq]
  rcases hadv : (g.held time).advanceMembers (g.stepTime time) g.members [] with ⟨members, e | report⟩ <;>
    rw [hadv] at hall hout
  · -- A flush that fails retires nothing.
    rw [hsame] at hfinish ⊢
    refine ⟨⟨hall, rfl, rfl, fun ref last hlast => ?_⟩, .inl ⟨⟨e, rfl⟩, rfl⟩⟩
    obtain ⟨last', hlast', hle⟩ := hfinish ref last hlast
    exact ⟨last', hlast', by rwa [add_zero]⟩
  · have hsteps := advanceMembers_range (g.held time) (g.stepTime time) g.members [] (congrArg Prod.snd hadv)
    rw [hsame] at hfinish hreach hout ⊢
    obtain ⟨⟨toolhead', extras', hsame'⟩, hback⟩ := finalizeQueues_back?
      (g := { g with toolhead, extras, members }) hreach (sub_lt_self (g.stepTime time) h.delay_pos)
      (g.stepTime time - historyTime)
    dsimp only
    rw [hsame'] at hback ⊢
    refine ⟨⟨hall, rfl, rfl, fun ref last hlast => ?_⟩, .inr ⟨report, rfl, rfl, fun ref href last hlast => ?_,
      fun m hm ref href hmotion => ?_, fun name u hu => ?_⟩⟩
    · obtain ⟨last', hlast', hle⟩ := hfinish ref last hlast
      exact ⟨last', (hback ref).trans hlast', by rwa [add_zero]⟩
    · exact hreach ref href last ((hback ref).symm.trans hlast)
    · obtain ⟨last, hlast⟩ := Option.isSome_iff_exists.1 hmotion
      obtain ⟨last', hlast', -⟩ := hfinish ref last hlast
      refine hout report rfl m hm ref href fun hempty => ?_
      rw [hempty] at hlast'
      cases hlast'
    · exact (hsteps name u hu).resolve_left (by simp [StepReport.get])

/-- By how much a call may take the end of a queue back. -/
def Call.slack (c : Call F) (ref : QueueRef) : F := if c.target? = some ref then joinTolerance else 0

theorem replay_steps (g : StepGenerator F) (c : Call F) : Steps g (g.replay c) c.slack ∧
    (g.replay c).lastFlush = g.lastFlush := by
  rw [replay_eq]
  cases hmotion : c.motion with
  | none =>
    refine ⟨⟨List.forall₂_same.2 fun m _ => .refl m, rfl, rfl, fun ref last hlast => ⟨last, hlast, ?_⟩⟩, rfl⟩
    simp [Call.slack, Call.target?, hmotion]
  | some motion =>
    obtain ⟨target, t⟩ := motion
    obtain ⟨toolhead, extras, hsame⟩ := sameBut_setQueue g target ((g.queue target).append t).1
    have hfinish : ∀ ref, ∀ last ∈ (g.queue ref).active.back?,
        ∃ last' ∈ ((g.setQueue target ((g.queue target).append t).1).queue ref).active.back?,
          last.finish ≤ last'.finish + c.slack ref := by
      intro ref last hlast
      simp only [Call.slack, Call.target?, hmotion, Option.map_some, Option.some.injEq]
      by_cases ho : ref = target
      · subst ho
        rw [queue_setQueue_self, if_pos rfl]
        exact Queue.append_finish hlast t
      · rw [queue_setQueue_ne g ho, if_neg (Ne.symm ho)]
        exact ⟨last, hlast, by rw [add_zero]⟩
    dsimp only
    rw [hsame] at hfinish ⊢
    exact ⟨⟨List.forall₂_same.2 fun m _ => .refl m, rfl, rfl, hfinish⟩, rfl⟩

theorem Upkept.run_steps (h : g.Upkept) (c : Call F) : Steps g (g.run c) c.slack := by
  cases c with
  | flush time => exact (h.flush time).1
  | move => exact (replay_steps g (.move ..)).1
  | extrude => exact (replay_steps g (.extrude ..)).1

theorem Upkept.of_steps (h : g.Upkept) {g' : StepGenerator F} {slack : QueueRef → F} (hg : Steps g g' slack) :
    g'.Upkept where
  current m' hm' := by
    obtain ⟨m, hm, hadv⟩ := exists_of_forall₂ hg.members m' hm'
    rw [hadv.window, hadv.model, h.current m hm]
  delay_pos := hg.flushDelay.symm ▸ h.delay_pos
  served m' hm' := by
    obtain ⟨m, hm, hadv⟩ := exists_of_forall₂ hg.members m' hm'
    obtain ⟨ref, href, hqueue⟩ := h.served m hm
    refine ⟨ref, ?_, hadv.queue.trans hqueue⟩
    rwa [servedQueues, hg.served]

/-! ## Runs -/

/-- A queue ends at a time or behind it, or in front of it by as many tolerances as motions were queued since,
and its steppers are there or beyond it. -/
structure Kept (g : StepGenerator F) (ref : QueueRef) (time : F) (count : Nat) : Prop where
  finish : ∃ last ∈ (g.queue ref).active.back?, time ≤ last.finish + count * joinTolerance
  flushed : ∀ m ∈ g.members, m.stepper.queue = some ref → time ≤ m.stepper.flushed

theorem Kept.of_steps {time : F} {n : Nat} (hk : g.Kept ref time n) {g' : StepGenerator F} {c : Call F}
    (hg : Steps g g' c.slack) : g'.Kept ref time (n + [c].countP (·.target? = some ref)) where
  finish := by
    obtain ⟨last, hlast, hle⟩ := hk.finish
    obtain ⟨last', hlast', hle'⟩ := hg.finish ref last hlast
    refine ⟨last', hlast', ?_⟩
    unfold Call.slack at hle'
    rw [List.countP_singleton]
    by_cases ht : c.target? = some ref
    · rw [if_pos ht] at hle'
      simp only [ht, decide_true, if_true]
      push_cast
      linarith
    · rw [if_neg ht] at hle'
      simp only [ht, decide_false, Bool.false_eq_true, if_false, Nat.add_zero]
      linarith
  flushed m' hm' hqueue := by
    obtain ⟨m, hm, hadv⟩ := exists_of_forall₂ hg.members m' hm'
    exact (hk.flushed m hm (hadv.queue.symm.trans hqueue)).trans hadv.flushed_le

theorem Upkept.after : ∀ (calls : List (Call F)) {g : StepGenerator F}, g.Upkept →
    (g.after calls).Upkept ∧ (g.after calls).servedQueues = g.servedQueues
  | [], _, h => ⟨h, rfl⟩
  | c :: rest, g, h => by
    have hsteps := h.run_steps c
    obtain ⟨hafter, hserved⟩ := (h.of_steps hsteps).after rest
    refine ⟨hafter, hserved.trans ?_⟩
    rw [servedQueues, servedQueues, hsteps.served]

theorem Kept.after {time : F} : ∀ (calls : List (Call F)) {g : StepGenerator F} {n : Nat}, g.Upkept →
    g.Kept ref time n → (g.after calls).Kept ref time (n + calls.countP (·.target? = some ref))
  | [], _, _, _, hk => hk
  | c :: rest, g, n, h, hk => by
    have hsteps := h.run_steps c
    have hrest := Kept.after rest (h.of_steps hsteps) (hk.of_steps hsteps)
    rwa [Nat.add_assoc, ← List.countP_append] at hrest

/-- A flush succeeds, and finds motion in a queue. -/
structure Catches (g : StepGenerator F) (time : F) (ref : QueueRef) : Prop where
  succeeds : (g.flush time).2.isOk
  motion : (g.queue ref).isEmpty = false

theorem Catches.kept {time : F} (hc : g.Catches time ref) (h : g.Upkept) (href : ref ∈ g.servedQueues) :
    (g.flush time).1.Kept ref (g.flush time).1.lastFlush 0 := by
  have hmotion : (g.queue ref).active.back?.isSome := by
    have := hc.motion
    simpa [Queue.isEmpty, Option.isSome_iff_ne_none] using this
  obtain ⟨hsteps, ⟨⟨e, herror⟩, -⟩ | ⟨report, -, hdone⟩⟩ := h.flush time
  · have := hc.succeeds
    rw [herror] at this
    cases this
  · obtain ⟨last, hlast⟩ := Option.isSome_iff_exists.1 hmotion
    obtain ⟨last', hlast', -⟩ := hsteps.finish ref last hlast
    rw [hdone.lastFlush]
    refine ⟨⟨last', hlast', ?_⟩, fun m hm hqueue => hdone.flushed m hm ref hqueue hmotion⟩
    simpa using hdone.reaches ref href last' hlast'

/-- Once it is kept, a queue is kept at the last flush through every call. -/
theorem Kept.current {n : Nat} (hk : g.Kept ref g.lastFlush n) (h : g.Upkept) (href : ref ∈ g.servedQueues)
    (c : Call F) : ∃ n', (g.run c).Kept ref (g.run c).lastFlush n' := by
  have hkept := hk.of_steps (h.run_steps c)
  cases c with
  | flush time =>
    obtain ⟨-, ⟨-, hlast⟩ | ⟨report, hok, -⟩⟩ := h.flush time
    · exact ⟨_, by rw [run, hlast]; exact hkept⟩
    · obtain ⟨last, hlast, -⟩ := hk.finish
      refine ⟨0, Catches.kept ⟨by rw [hok]; rfl, ?_⟩ h href⟩
      rw [Queue.isEmpty, Array.isEmpty_eq_false_iff]
      rintro hempty
      rw [hempty] at hlast
      cases hlast
  | move time start finish maxVelocity accel =>
    have hlast := (replay_steps g (.move time start finish maxVelocity accel)).2
    exact ⟨_, hlast.symm ▸ hkept⟩
  | extrude target time timing start distance =>
    have hlast := (replay_steps g (.extrude target time timing start distance)).2
    exact ⟨_, hlast.symm ▸ hkept⟩

theorem Kept.lastFlush_after : ∀ (calls : List (Call F)) {g : StepGenerator F} {n : Nat}, g.Upkept →
    ref ∈ g.servedQueues → g.Kept ref g.lastFlush n → ∃ n', (g.after calls).Kept ref (g.after calls).lastFlush n'
  | [], _, n, _, _, hk => ⟨n, hk⟩
  | c :: rest, g, n, h, href, hk => by
    have hsteps := h.run_steps c
    obtain ⟨n', hk'⟩ := hk.current h href c
    refine Kept.lastFlush_after rest (h.of_steps hsteps) ?_ hk'
    rwa [servedQueues, hsteps.served]

/-- Flushes have kept up with a queue: none of them has succeeded yet, or one that did has found motion in it. -/
def KeptUp (g : StepGenerator F) (calls : List (Call F)) (ref : QueueRef) : Prop :=
  (∀ done time rest, calls = done ++ .flush time :: rest → ((g.after done).flush time).2.isOk = false) ∨
    ∃ done time rest, calls = done ++ .flush time :: rest ∧ (g.after done).Catches time ref

/-- Flushes that fail do not count as flushed time. -/
theorem Upkept.lastFlush_eq : ∀ {calls : List (Call F)} {g : StepGenerator F}, g.Upkept →
    (∀ done time rest, calls = done ++ .flush time :: rest → ((g.after done).flush time).2.isOk = false) →
      (g.after calls).lastFlush = g.lastFlush
  | [], _, _, _ => rfl
  | c :: rest, g, h, hfails => by
    have hrest : ((g.run c).after rest).lastFlush = (g.run c).lastFlush :=
      (h.of_steps (h.run_steps c)).lastFlush_eq fun done time later heq =>
        hfails (c :: done) time later (by rw [heq]; rfl)
    refine hrest.trans ?_
    cases c with
    | flush time =>
      obtain ⟨-, ⟨-, hlast⟩ | ⟨report, hok, -⟩⟩ := h.flush time
      · exact hlast
      · have := hfails [] time rest rfl
        rw [show g.after [] = g from rfl, hok] at this
        cases this
    | move => exact (replay_steps g (.move ..)).2
    | extrude => exact (replay_steps g (.extrude ..)).2

theorem Upkept.flushed_nonneg : ∀ (calls : List (Call F)) {g : StepGenerator F}, g.Upkept →
    (∀ m ∈ g.members, 0 ≤ m.stepper.flushed) → ∀ m ∈ (g.after calls).members, 0 ≤ m.stepper.flushed
  | [], _, _, hs => hs
  | c :: rest, g, h, hs => by
    have hsteps := h.run_steps c
    refine (h.of_steps hsteps).flushed_nonneg rest fun m' hm' => ?_
    obtain ⟨m, hm, hadv⟩ := exists_of_forall₂ hsteps.members m' hm'
    exact (hs m hm).trans hadv.flushed_le

/-- A stepper of a queue that flushes have kept up with is at the last flush or beyond it. -/
theorem KeptUp.lastFlush_le {calls : List (Call F)} (hk : g.KeptUp calls ref) (h : g.Upkept) (hzero : g.lastFlush = 0)
    (hs : ∀ m ∈ g.members, 0 ≤ m.stepper.flushed) {m : Member F} (hm : m ∈ (g.after calls).members)
    (href : m.stepper.queue = some ref) : (g.after calls).lastFlush ≤ m.stepper.flushed := by
  obtain ⟨hafter, hserved⟩ := h.after calls
  obtain ⟨ref', hmem, href'⟩ := hafter.served m hm
  obtain rfl : ref' = ref := Option.some.inj (href'.symm.trans href)
  rw [hserved] at hmem
  rcases hk with hfails | ⟨done, time, rest, rfl, hc⟩
  · rw [h.lastFlush_eq hfails, hzero]
    exact h.flushed_nonneg calls hs m hm
  · obtain ⟨hdone, hdoneServed⟩ := h.after done
    have hsteps := (hdone.flush time).1
    have hkept := hc.kept hdone (hdoneServed ▸ hmem)
    have hmem' : ref' ∈ ((g.after done).flush time).1.servedQueues := by
      rwa [servedQueues, hsteps.served, ← servedQueues, hdoneServed]
    obtain ⟨n, hkept'⟩ := Kept.lastFlush_after rest (hdone.of_steps hsteps) hmem' hkept
    have hsplit : g.after (done ++ .flush time :: rest) = ((g.after done).flush time).1.after rest := by
      rw [StepGenerator.after, List.foldl_append]
      rfl
    rw [hsplit] at hm ⊢
    exact hkept'.flushed m hm href

theorem Ready.upkept (h : g.Ready) : g.Upkept := ⟨h.current, h.booked.delay_pos, h.served⟩

/-- Set a generator up, and make any calls that queue motion or flush. A stepper whose queue flushes have kept
up with takes no step at or before the last flush. And once a flush that succeeds has found motion in a queue, a
motion for the queue is refused that begins before the last flush time which that flush has left, by more than one
tolerance for each motion for the queue since then, itself included. -/
theorem steps_after_lastFlush (setup : List (Setup F))
    (hs : ∀ m ∈ (prepared setup).members, 0 ≤ m.stepper.flushed) (calls : List (Call F)) :
    (∀ time report, (((prepared setup).after calls).flush time).2 = .ok report → ∀ name,
      (∀ m ∈ ((prepared setup).after calls).members, m.stepper.name = name →
        ∀ ref ∈ m.stepper.queue, (prepared setup).KeptUp calls ref) →
      ∀ u ∈ report.get name, ((prepared setup).after calls).lastFlush < u.time) ∧
    ∀ done time rest ref, calls = done ++ .flush time :: rest → ref ∈ (prepared setup).servedQueues →
      ((prepared setup).after done).Catches time ref → ∀ c t, c.motion = some (ref, t) → t.segments ≠ [] →
        t.start + (rest.countP (·.target? = some ref) + 1) * joinTolerance <
          (((prepared setup).after done).flush time).1.lastFlush →
        (∃ queueEnd, ((prepared setup).after calls).fault? c = some (.queue (.outOfOrder t.start queueEnd))) ∧
          (((prepared setup).after calls).run c).queue ref = ((prepared setup).after calls).queue ref := by
  have hready := ready_prepared setup
  have h := hready.upkept
  refine ⟨fun time report hok name hkept u hu => ?_, ?_⟩
  · obtain ⟨hafter, -⟩ := h.after calls
    obtain ⟨-, ⟨⟨e, herror⟩, -⟩ | ⟨report', hok', hdone⟩⟩ := hafter.flush time
    · rw [herror] at hok
      cases hok
    rw [hok] at hok'
    cases hok'
    obtain ⟨m, hm, hname, hlt⟩ := hdone.steps name u hu
    obtain ⟨ref, -, href⟩ := hafter.served m hm
    exact ((hkept m hm hname ref href).lastFlush_le h hready.lastFlush hs hm href).trans_lt hlt
  · rintro done time rest ref rfl href hc c t hmotion ht hearly
    obtain ⟨hdone, hserved⟩ := h.after done
    have hsplit : (prepared setup).after (done ++ .flush time :: rest) =
        (((prepared setup).after done).flush time).1.after rest := by
      rw [StepGenerator.after, List.foldl_append]
      rfl
    obtain ⟨last, hlast, hle⟩ :=
      ((hc.kept hdone (hserved ▸ href)).after rest (hdone.of_steps (hdone.flush time).1)).finish
    rw [← hsplit] at hlast
    rw [Nat.zero_add] at hle
    have hrefused := Queue.append_early hlast ht (by linarith)
    refine ⟨⟨last.finish, ?_⟩, ?_⟩
    · rw [fault?_eq _ hmotion, hrefused]
      rfl
    · rw [run_of_motion _ hmotion, hrefused, queue_setQueue_self]

/-- A stepper on the toolhead queue. -/
def oneStepper : List (Setup ℚ) := [.addStepper (.new "x" (1 / 2) (.linear .x))]

/-- A move of a millimetre that begins at 1 s. -/
def firstMove : List (Call ℚ) := [.move 1 ⟨0, 0, 0⟩ ⟨1, 0, 0⟩ 10 100]

/-- A move of three picoseconds. -/
def nudge (time : ℚ) : Call ℚ := .move time ⟨1, 0, 0⟩ ⟨1 + 2 / 10 ^ 12, 0, 0⟩ 1 (10 ^ 12)

/-- Motion that goes on within the tolerance of the time until which a flush at 2 holds the queue. -/
def onward : List (Call ℚ) := [nudge (1.999 - 0.0000000009), .move 1.999 ⟨1, 0, 0⟩ ⟨2, 0, 0⟩ 10 100]

/-- A flush has held the queue in between. -/
def resumed : List (Call ℚ) := firstMove ++ .flush 2 :: onward

theorem firstMove_catches : ((prepared oneStepper).after firstMove).Catches 2 .toolhead :=
  ⟨by decide +kernel, by decide +kernel⟩

theorem eq_ok_of_toOption {ε α : Type} {r : Except ε α} {a : α} (h : a ∈ r.toOption) : r = .ok a := by
  cases r <;> cases h
  rfl

/-- The next flush returns steps behind the time of the first one only, and a move in front of it is refused. -/
theorem steps_after_lastFlush_resumed :
    (∃ report, (((prepared oneStepper).after resumed).flush 3).2 = .ok report ∧ (report.get "x").size = 2 ∧
      ∀ u ∈ report.get "x", 1.999 < u.time) ∧
    ∃ start queueEnd, start < (1.999 : ℚ) ∧ ((prepared oneStepper).after resumed).fault? (nudge (1.999 - 0.000000004)) =
      some (.queue (.outOfOrder start queueEnd)) := by
  obtain ⟨hsteps, hrefused⟩ := steps_after_lastFlush oneStepper (by decide +kernel) resumed
  constructor
  · obtain ⟨report, hreport, hsize⟩ : ∃ report ∈ (((prepared oneStepper).after resumed).flush 3).2.toOption,
        (report.get "x").size = 2 := by decide +kernel
    have hok := eq_ok_of_toOption hreport
    have hlast : ((prepared oneStepper).after resumed).lastFlush = 1.999 := by decide +kernel
    refine ⟨report, hok, hsize, hlast ▸ hsteps 3 report hok "x" fun m hm _ ref href => ?_⟩
    have htoolhead : ∀ m ∈ ((prepared oneStepper).after resumed).members, m.stepper.queue = some .toolhead := by
      decide +kernel
    obtain rfl : QueueRef.toolhead = ref := Option.some.inj ((htoolhead m hm).symm.trans href)
    exact .inr ⟨firstMove, 2, _, rfl, firstMove_catches⟩
  · obtain ⟨⟨ref, t⟩, hmotion, rfl, ht, hearly, hlate⟩ : ∃ motion ∈ (nudge (1.999 - 0.000000004)).motion,
        motion.1 = .toolhead ∧ motion.2.segments ≠ [] ∧
          motion.2.start + (onward.countP (·.target? = some .toolhead) + 1) * joinTolerance <
            (((prepared oneStepper).after firstMove).flush 2).1.lastFlush ∧ motion.2.start < 1.999 := by
      decide +kernel
    obtain ⟨⟨queueEnd, hfault⟩, -⟩ := hrefused firstMove 2 onward .toolhead rfl List.mem_cons_self firstMove_catches _ t
      hmotion ht hearly
    exact ⟨t.start, queueEnd, hlate, hfault⟩

/-- A flush of an empty queue passes its steppers over. A move that is queued in flushed time afterwards is taken,
and the next flush returns steps of it. And where there was motion, motions that each begin within the tolerance
may together go back by more than that. -/
theorem not_steps_after_lastFlush :
    (¬ ∀ (setup : List (Setup ℚ)) (calls : List (Call ℚ)) (time : ℚ) (report : StepReport ℚ) (name : String),
      (∀ m ∈ (prepared setup).members, 0 ≤ m.stepper.flushed) →
      (((prepared setup).after calls).flush time).2 = .ok report →
      ∀ u ∈ report.get name, ((prepared setup).after calls).lastFlush < u.time) ∧
    ¬ ∀ (setup : List (Setup ℚ)) (done rest : List (Call ℚ)) (time : ℚ) (ref : QueueRef) (c : Call ℚ)
      (t : Queue.Trapezoid ℚ), (∀ m ∈ (prepared setup).members, 0 ≤ m.stepper.flushed) →
      ref ∈ (prepared setup).servedQueues → ((prepared setup).after done).Catches time ref →
      c.motion = some (ref, t) → t.segments ≠ [] →
      t.start + joinTolerance < (((prepared setup).after done).flush time).1.lastFlush →
      (((prepared setup).after (done ++ .flush time :: rest)).fault? c).isSome := by
  constructor <;> intro h
  · obtain ⟨report, hreport, u, hu, hearly⟩ :
        ∃ report ∈ (((prepared oneStepper).after (.flush 10 :: firstMove)).flush 20).2.toOption,
          ∃ u ∈ report.get "x", u.time ≤ ((prepared oneStepper).after (.flush 10 :: firstMove)).lastFlush := by
      decide +kernel
    have hlate := h oneStepper _ 20 report "x" (by decide +kernel) (eq_ok_of_toOption hreport) u hu
    exact absurd hearly (not_le.2 hlate)
  · obtain ⟨⟨ref, t⟩, hmotion, rfl, ht, hearly⟩ : ∃ motion ∈ (nudge (1.999 - 0.0000000018)).motion,
        motion.1 = .toolhead ∧ motion.2.segments ≠ [] ∧ motion.2.start + joinTolerance <
          (((prepared oneStepper).after firstMove).flush 2).1.lastFlush := by
      decide +kernel
    have hfault := h oneStepper firstMove [nudge (1.999 - 0.0000000009)] 2 .toolhead _ t (by decide +kernel)
      List.mem_cons_self firstMove_catches hmotion ht hearly
    have htaken : (((prepared oneStepper).after (firstMove ++ .flush 2 :: [nudge (1.999 - 0.0000000009)])).fault?
        (nudge (1.999 - 0.0000000018))).isSome = false := by decide +kernel
    rw [htaken] at hfault
    cases hfault

end StepGenerator

end PrinterMotion
