/-
Flushing as motion comes in is like flushing the whole motion. At every flush each queue plays what the
same queue would without flushes, apart from motions that ended by the flush delay before the last flush of
each of its steppers. A stepper that is advanced looks back no further than that, and looks ahead no further
than to the time that the flush was asked for, and all later motion begins behind that. So the positions
that a flush takes are those of the whole motion.
-/
import PrinterMotion.Proofs.StepGenerator.Holding
import PrinterMotion.Proofs.StepGenerator.Setup

namespace PrinterMotion.StepGenerator

variable {F : Type} [Exact F]

/-! ## Statements -/

/-- The motion that a call queues is not earlier than any flush before it, and is fit to follow in its
queue, with the flushes (`g`) and without them (`r`). -/
def Call.Follows (fit : Queue F → Stand F → Prop) (c : Call F) (g r : StepGenerator F) (times : List F) : Prop :=
  ∀ motion ∈ c.motion, motion.2.segments ≠ [] → (∀ time ∈ times, time ≤ motion.2.start) ∧
    fit (g.queue motion.1) ⟨motion.2.position, motion.2.start⟩ ∧
      fit (r.queue motion.1) ⟨motion.2.position, motion.2.start⟩

/-- The motion of each call follows what the calls before it have queued and flushed. -/
def Admissible (fit : Queue F → Stand F → Prop) : (g r : StepGenerator F) → (times : List F) →
    List (Call F) → Prop
  | _, _, _, [] => True
  | g, r, times, c :: rest =>
    c.Follows fit g r times ∧ Admissible fit (g.run c) (r.replay c) (c.flushTime?.toList ++ times) rest

instance (fit : Queue F → Stand F → Prop) [∀ q a, Decidable (fit q a)] (c : Call F) (g r : StepGenerator F)
    (times : List F) : Decidable (c.Follows fit g r times) :=
  inferInstanceAs (Decidable (∀ motion ∈ c.motion, motion.2.segments ≠ [] → _))

instance Admissible.decide (fit : Queue F → Stand F → Prop) [∀ q a, Decidable (fit q a)] :
    (g r : StepGenerator F) → (times : List F) → (calls : List (Call F)) → Decidable (Admissible fit g r times calls)
  | _, _, _, [] => .isTrue trivial
  | g, r, times, c :: rest =>
    have := Admissible.decide fit (g.run c) (r.replay c) (c.flushTime?.toList ++ times) rest
    inferInstanceAs (Decidable (c.Follows fit g r times ∧ _))

/-- The position of a model at a print time on a queue of the generator. -/
def positionAt (g : StepGenerator F) (m : Model F) (ref : QueueRef) (x : F) : Option F :=
  (g.queue ref).positionAt m x

/-- The positions that a flush at `time` takes for its steppers are those on the queues of `whole`: each of
them is the position of the same model at the same print time, and the flush advances its steppers as if
it had been given these positions. -/
def Faithful (g : StepGenerator F) (time : F) (whole : StepGenerator F) : Prop :=
  ∀ m ∈ g.members, ∀ ref, m.stepper.queue = some ref →
    (∀ i c t, ((g.held time).queue ref).cursor? i = some c → 0 < t → t ≤ c.current.duration →
      m.stepper.flushed < c.current.start + t → c.current.start + t ≤ g.stepTime time →
        whole.positionAt m.stepper.model ref (c.current.start + t) = some (m.stepper.model.position c t)) ∧
    m.stepper.toStepTracker.advance m.stepper.model.kinematics (some ((g.held time).queue ref)) (g.stepTime time) =
      m.stepper.toStepTracker.advance (m.stepper.model.kinematics.withPosition fun c t =>
        (whole.positionAt m.stepper.model ref (c.current.start + t)).getD 0)
        (some ((g.held time).queue ref)) (g.stepTime time)

/-! ## The invariant -/

/-- A stepper whose windows are known and covered by the flush delay, and whose queue is kept up. -/
structure Tended (g : StepGenerator F) (m : Member F) : Prop where
  window : m.window = m.stepper.model.scanWindow
  sighted : m.stepper.model.Sighted
  covered : m.stepper.model.scanWindow ≤ g.flushDelay
  flushed : 0 ≤ m.stepper.flushed
  served : ∃ ref ∈ g.servedQueues, m.stepper.queue = some ref

/-- A time that no stepper of a queue can still look back on. -/
def Passed (members : List (Member F)) (delay : F) (ref : QueueRef) (t : F) : Prop :=
  ∀ m ∈ members, m.stepper.queue = some ref → t + delay ≤ m.stepper.flushed

/-- A generator beside one with the same motion that was never flushed, after flushes at `times`. -/
structure Sync (times : List F) (g r : StepGenerator F) : Prop where
  tended : ∀ m ∈ g.members, g.Tended m
  delay_pos : 0 < g.flushDelay
  last : g.lastFlush = 0 ∨ ∃ time ∈ times, g.lastFlush + g.flushDelay ≤ time
  queues : ∀ ref, (g.queue ref).Mirrors (Passed g.members g.flushDelay ref) (r.queue ref)

variable {g r : StepGenerator F} {times : List F}

theorem Sync.refreshWindows_eq (h : Sync times g r) : g.refreshWindows = g :=
  StepGenerator.refreshWindows_eq fun m hm => (h.tended m hm).window

theorem Sync.stepTime_eq (h : Sync times g r) (time : F) :
    g.stepTime time = max (time - g.flushDelay) g.lastFlush := by
  rw [stepTime, h.refreshWindows_eq, Scalar.max_eq]

/-- Beyond the start of time, step generation stays by the flush delay behind the latest flush. -/
theorem Sync.stepTime_cases (h : Sync times g r) (time : F) :
    g.stepTime time = 0 ∨ ∃ latest ∈ time :: times, g.stepTime time + g.flushDelay ≤ latest := by
  rw [h.stepTime_eq]
  rcases max_choice (time - g.flushDelay) g.lastFlush with heq | heq
  · exact .inr ⟨time, List.mem_cons_self, by rw [heq, sub_add_cancel]⟩
  · rw [heq]
    exact h.last.imp_right fun ⟨latest, hmem, hle⟩ => ⟨latest, List.mem_cons_of_mem _ hmem, hle⟩

/-- A call that queues motion does so on both sides. -/
theorem Sync.replay (h : Sync times g r) {c : Call F} (hc : c.Follows Queue.Joins g r times) :
    Sync times (g.replay c) (r.replay c) := by
  rw [replay_eq, replay_eq]
  cases hmotion : c.motion with
  | none => exact h
  | some motion =>
    obtain ⟨ref, t⟩ := motion
    obtain ⟨toolhead, extras, hsame⟩ := sameBut_setQueue g ref ((g.queue ref).append t).1
    have hqueues : ∀ other, ((g.setQueue ref ((g.queue ref).append t).1).queue other).Mirrors
        (Passed g.members g.flushDelay other) ((r.setQueue ref ((r.queue ref).append t).1).queue other) := by
      intro other
      by_cases ho : other = ref
      · subst ho
        rw [queue_setQueue_self, queue_setQueue_self]
        exact (h.queues other).addAll t.segments_joined (fun hne => (hc (other, t) hmotion hne).2.1)
          fun hne => (hc (other, t) hmotion hne).2.2
      · rw [queue_setQueue_ne g ho, queue_setQueue_ne r ho]
        exact h.queues other
    simp only [hsame] at hqueues ⊢
    exact ⟨fun m hm => ⟨(h.tended m hm).window, (h.tended m hm).sighted, (h.tended m hm).covered,
      (h.tended m hm).flushed, (h.tended m hm).served⟩, h.delay_pos, h.last, hqueues⟩

/-- The queues that a flush advances its steppers with. -/
theorem Sync.held (h : Sync times g r) (time : F) :
    holdQueues (g.stepTime time) g.servedQueues g = (g.held time, none) ∧ SameBut g (g.held time) ∧
      (∀ ref, ((g.held time).queue ref).Mirrors (Passed g.members g.flushDelay ref) (r.queue ref)) ∧
      ∀ ref ∈ g.servedQueues, ((g.held time).queue ref).Reaches (g.stepTime time) := by
  obtain ⟨g', hhold, hsame, hall, hreach, -⟩ := holdQueues_spec
    (fun ref q => q.Mirrors (Passed g.members g.flushDelay ref) (r.queue ref)) (fun q => q.Reaches (g.stepTime time))
    (g.stepTime time)
    (fun _ _ hmirrors => hmirrors.holdUntil (g.stepTime time)) g.servedQueues g h.queues
  have hheld : g.held time = g' := by
    rw [StepGenerator.held, h.refreshWindows_eq, hhold]
  rw [hheld]
  exact ⟨hhold, hsame, hall, hreach⟩

/-- Flushing leaves the steppers tended, whatever they return. -/
theorem Tended.advanced {g g' : StepGenerator F} {m m' : Member F} (h : g.Tended m) (ha : Advanced m m')
    (hdelay : g'.flushDelay = g.flushDelay) (hserved : g'.served = g.served) : g'.Tended m' where
  window := by rw [ha.window, ha.model, h.window]
  sighted := by rw [ha.model]; exact h.sighted
  covered := by rw [ha.model, hdelay]; exact h.covered
  flushed := h.flushed.trans ha.flushed_le
  served := by
    obtain ⟨ref, hmem, href⟩ := h.served
    refine ⟨ref, ?_, by rw [ha.queue, href]⟩
    rwa [servedQueues, hserved]

theorem Passed.advanced {members members' : List (Member F)} {delay : F} {ref : QueueRef} {t : F}
    (h : Passed members delay ref t) (ha : List.Forall₂ Advanced members members') : Passed members' delay ref t := by
  intro m' hm' href
  obtain ⟨m, hm, hadv⟩ := exists_of_forall₂ ha m' hm'
  exact (h m hm (by rw [← hadv.queue, href])).trans hadv.flushed_le

/-- Advancing steppers keeps the invariant. -/
theorem Sync.of_advanced (h : Sync times g r) (time : F) {g' : StepGenerator F} {members : List (Member F)}
    (hsame : SameBut g g')
    (hkeeps : ∀ ref, (g'.queue ref).Mirrors (Passed g.members g.flushDelay ref) (r.queue ref))
    (ha : List.Forall₂ Advanced g.members members) : Sync (time :: times) { g' with members } r := by
  obtain ⟨toolhead, extras, rfl⟩ := hsame
  refine ⟨fun m' hm' => ?_, h.delay_pos, ?_, fun ref => (hkeeps ref).mono fun _ ht => ht.advanced ha⟩
  · obtain ⟨m, hm, hadv⟩ := exists_of_forall₂ ha m' hm'
    exact (h.tended m hm).advanced hadv rfl rfl
  · exact h.last.imp_right fun ⟨latest, hmem, hle⟩ => ⟨latest, List.mem_cons_of_mem _ hmem, hle⟩

/-- So does retiring motion that all steppers have left behind. -/
theorem Sync.retire (h : Sync times g r) {stop : F} (hreach : ∀ ref ∈ g.servedQueues, (g.queue ref).Reaches stop)
    (hadv : ∀ m ∈ g.members, ∀ ref, m.stepper.queue = some ref → (g.queue ref).active ≠ #[] →
      stop ≤ m.stepper.flushed)
    (hstop : stop = 0 ∨ ∃ time ∈ times, stop + g.flushDelay ≤ time) (clear : F) :
    Sync times { g.finalizeQueues (stop - g.flushDelay) clear with lastFlush := stop } r := by
  have hretire : ∀ (ref : QueueRef) (q : Queue F), q.Mirrors (Passed g.members g.flushDelay ref) (r.queue ref) →
      q.Reaches stop →
        (q.finalize (stop - g.flushDelay) clear).Mirrors (Passed g.members g.flushDelay ref) (r.queue ref) ∧
          (q.finalize (stop - g.flushDelay) clear).Reaches stop := by
    intro ref q hm hq
    refine hm.finalize hq (sub_lt_self _ h.delay_pos) (fun hactive t ht m hmem href => ?_) clear
    -- The queue has motion, so all of its steppers have been advanced.
    have := hadv m hmem ref href ((h.queues ref).active_ne hactive)
    linarith
  obtain ⟨⟨toolhead, extras, hfin⟩, hqueues⟩ := finalize_spec _ hretire g.servedQueues g h.queues hreach
  rw [finalizeQueues]
  rw [hfin] at hqueues ⊢
  exact ⟨fun m hm => (h.tended m hm).advanced (.refl m) rfl rfl, h.delay_pos, hstop, hqueues⟩

/-- A flush keeps up with the queues that were never flushed. -/
theorem Sync.flush (h : Sync times g r) (time : F) : Sync (time :: times) (g.flush time).1 r := by
  obtain ⟨-, hsame, hkeeps, hreach⟩ := h.held time
  obtain ⟨hdelay, hserved⟩ : (g.held time).flushDelay = g.flushDelay ∧ (g.held time).servedQueues = g.servedQueues := by
    obtain ⟨toolhead, extras, heq⟩ := hsame
    rw [heq]
    exact ⟨rfl, rfl⟩
  obtain ⟨hall, hout⟩ := advanceMembers_spec (g.held time) (g.stepTime time) g.members []
  rw [flush_eq, h.refreshWindows_eq, ← hdelay]
  rcases hadv : (g.held time).advanceMembers (g.stepTime time) g.members [] with ⟨members, e | report⟩
  · -- A flush that fails retires nothing.
    rw [hadv] at hall
    exact h.of_advanced time hsame hkeeps hall
  · rw [hadv] at hall hout
    refine (h.of_advanced time hsame hkeeps hall).retire ?_ (hout report rfl) ?_ (g.stepTime time - historyTime)
    · rw [servedQueues] at hserved
      exact fun ref hmem => hreach ref (hserved ▸ hmem)
    · have := h.stepTime_cases time
      rwa [← hdelay] at this

/-- A flush is faithful to the queues that were never flushed, whatever motion is queued there later. -/
theorem Sync.faithful (h : Sync times g r) (time : F) {w : StepGenerator F}
    (hw : ∀ ref, ∃ more, (r.queue ref).Continues (w.queue ref) more ∧
      ∀ s ∈ more, ∀ latest ∈ time :: times, latest ≤ s.start) : g.Faithful time w := by
  intro m hm ref href
  obtain ⟨-, -, hkeeps, -⟩ := h.held time
  have hmirrors := hkeeps ref
  obtain ⟨more, hcontinues, hmore⟩ := hw ref
  have hm' := h.tended m hm
  obtain ⟨hbefore, hafter⟩ := m.stepper.model.windows_le_scanWindow
  have hcovered := hm'.covered
  have hpos : ∀ i c t, ((g.held time).queue ref).cursor? i = some c → 0 < t → t ≤ c.current.duration →
      m.stepper.flushed < c.current.start + t → c.current.start + t ≤ g.stepTime time →
        w.positionAt m.stepper.model ref (c.current.start + t) = some (m.stepper.model.position c t) := by
    intro i c t hc ht ht' hlow hupp
    have hzero := hm'.flushed
    -- A stepper is only advanced once step generation follows a flush.
    obtain ⟨latest, hlatest, hdelay⟩ := (h.stepTime_cases time).resolve_left fun heq => by linarith
    refine hmirrors.positionAt_eq hcontinues hm'.sighted hc ht ht' (m.stepper.flushed - g.flushDelay) latest
      (fun t ht => ?_) ?_ (fun s hs => hmore s hs latest hlatest) ?_
    · have := ht m hm href
      linarith
    · linarith
    · linarith
  refine ⟨hpos, StepTracker.advance_congr fun i c t hc ht ht' hlow hupp => ?_⟩
  simp only [hpos i c t hc ht ht' hlow hupp, Option.getD_some]
  rfl

/-! ## Runs -/

/-- Motion that is queued later is not earlier than any flush so far. -/
theorem Admissible.continues : ∀ {calls : List (Call F)} {g r : StepGenerator F} {times : List F},
    Admissible Queue.Joins g r times calls → ∀ ref, ∃ more,
      (r.queue ref).Continues ((r.unflushed calls).queue ref) more ∧
        ∀ s ∈ more, ∀ latest ∈ times, latest ≤ s.start
  | [], _, r, _, _, ref => ⟨[], .refl _, fun _ hs => by cases hs⟩
  | c :: rest, g, r, times, ⟨hc, hrest⟩, ref => by
    obtain ⟨more, hcontinues, hmore⟩ := hrest.continues ref
    obtain ⟨first, hfirst, hlate⟩ : ∃ first, (r.queue ref).Continues ((r.replay c).queue ref) first ∧
        ∀ s ∈ first, ∀ latest ∈ times, latest ≤ s.start := by
      rw [replay_eq]
      cases hmotion : c.motion with
      | none => exact ⟨[], .refl _, fun _ hs => by cases hs⟩
      | some motion =>
        obtain ⟨target, t⟩ := motion
        by_cases ho : ref = target
        · subst ho
          rw [queue_setQueue_self]
          refine ⟨t.segments, Queue.addAll_continues t.segments_joined fun hne => (hc (ref, t) hmotion hne).2.2, ?_⟩
          intro s hs latest hlatest
          exact ((hc (ref, t) hmotion (List.ne_nil_of_mem hs)).1 latest hlatest).trans (t.segments_joined.le_start s hs)
        · rw [queue_setQueue_ne r ho]
          exact ⟨[], .refl _, fun _ hs => by cases hs⟩
    refine ⟨first ++ more, hfirst.trans hcontinues, fun s hs latest hlatest => ?_⟩
    rcases List.mem_append.1 hs with hs | hs
    · exact hlate s hs latest hlatest
    · exact hmore s hs latest (List.mem_append_right _ hlatest)

/-- The invariant is kept through calls, and the calls behind them may follow. -/
theorem Sync.after : ∀ {done : List (Call F)} {g r : StepGenerator F} {times : List F} {rest : List (Call F)},
    Sync times g r → Admissible Queue.Joins g r times (done ++ rest) →
      ∃ times', Sync times' (g.after done) (r.unflushed done) ∧
        Admissible Queue.Joins (g.after done) (r.unflushed done) times' rest
  | [], _, _, times, _, h, hc => ⟨times, h, hc⟩
  | c :: done, g, r, times, rest, h, ⟨hc, hrest⟩ => by
    have hstep : Sync (c.flushTime?.toList ++ times) (g.run c) (r.replay c) := by
      cases c with
      | flush time => exact h.flush time
      | move => exact h.replay hc
      | extrude => exact h.replay hc
    exact hstep.after hrest

/-- Before the first motion there is nothing to keep up with. -/
theorem Ready.sync {g : StepGenerator F} (h : g.Ready)
    (hs : ∀ m ∈ g.members, m.stepper.model.Sighted ∧ 0 ≤ m.stepper.flushed) : Sync [] g g where
  tended m hm := ⟨h.current m hm, (hs m hm).1, (h.current m hm).symm.trans_le (h.booked.window_le hm), (hs m hm).2,
    h.served m hm⟩
  delay_pos := h.booked.delay_pos
  last := .inl h.lastFlush
  queues ref := .idle (h.idle ref) (h.idle ref)

/-- Set a generator up with steppers that look no further than their windows, and make calls of which each
queues its motion no earlier than any flush before it, and at the end of its queue or by more than the join
tolerance behind it. Then each flush takes the positions that the models have on the queues of the whole
motion without flushes, motion that is queued after the flush included. -/
theorem flush_faithful (setup : List (Setup F))
    (hs : ∀ m ∈ (prepared setup).members, m.stepper.model.Sighted ∧ 0 ≤ m.stepper.flushed)
    {calls done rest : List (Call F)} {time : F}
    (hc : Admissible Queue.Joins (prepared setup) (prepared setup) [] calls)
    (hcalls : calls = done ++ .flush time :: rest) :
    ((prepared setup).after done).Faithful time ((prepared setup).unflushed calls) := by
  subst hcalls
  obtain ⟨times, hsync, -, hrest⟩ := ((ready_prepared setup).sync hs).after hc
  have hwhole : (prepared setup).unflushed (done ++ .flush time :: rest) =
      ((prepared setup).unflushed done).unflushed rest := by
    rw [unflushed, List.foldl_append]
    rfl
  rw [hwhole]
  exact hsync.faithful time fun ref => hrest.continues ref

/-- A stepper with an input shaper of two pulses, and an extruder with pressure advance. -/
def shapedSetup : List (Setup ℚ) := [
  .addStepper (.new "x" 1 (.inputShaper ⟨[⟨-1 / 20, 1 / 2⟩, ⟨1 / 20, 1 / 2⟩], []⟩ (.linear .x))),
  .addStepper { Stepper.new "e" 1 (.extruder .off) with queue := some (.extra "e") },
  .setPressureAdvance "e" (1 / 20) (1 / 25)]

/-- A move with filament. -/
def printed : List (Call ℚ) := [
  .move 1 ⟨0, 0, 0⟩ ⟨1, 0, 0⟩ 10 100,
  .extrude (.extra "e") 1 (.plan 1 10 100) 0 (1 / 2)]

/-- Another move where the first one ends, and a flush in the middle of it. -/
def printedLater : List (Call ℚ) := [
  .move (6 / 5) ⟨1, 0, 0⟩ ⟨2, 0, 0⟩ 10 100,
  .extrude (.extra "e") (6 / 5) (.plan 1 10 100) (1 / 2) (1 / 2),
  .flush (13 / 10)]

/-- A flush in the middle of the first move takes the positions of both. -/
theorem flush_faithful_print : ((prepared shapedSetup).after printed).Faithful (23 / 20)
    ((prepared shapedSetup).unflushed (printed ++ .flush (23 / 20) :: printedLater)) :=
  flush_faithful shapedSetup (by decide +kernel) (by decide +kernel) rfl

/-- A move, and a short one that begins by the join tolerance after the first one has ended. -/
def gapped : List (Call ℚ) := [
  .move 1 ⟨0, 0, 0⟩ ⟨1, 0, 0⟩ 10 100,
  .move 1.200000001 ⟨1, 0, 0⟩ ⟨1.01, 0, 0⟩ 10 100]

/-- A very fast move when the short one ends. -/
def gappedLater : List (Call ℚ) := [
  .move 1.220000001 ⟨1.01, 0, 0⟩ ⟨3.01, 0, 0⟩ 200000000 20000000000000000]

/-- Motion may also begin a little after its queue has ended, by no more than the join tolerance. That gap is
not filled, and cursors walk over it as if it were not there. So a flush in time for the motion behind it
already looks into that motion. -/
theorem not_faithful_short_gap : ¬ ∀ (setup : List (Setup ℚ)) (calls done rest : List (Call ℚ)) (time : ℚ),
    (∀ m ∈ (prepared setup).members, m.stepper.model.Sighted ∧ 0 ≤ m.stepper.flushed) →
    Admissible Queue.EndsBy (prepared setup) (prepared setup) [] calls →
    calls = done ++ .flush time :: rest →
    ((prepared setup).after done).Faithful time ((prepared setup).unflushed calls) := by
  intro h
  have hfaithful := h shapedSetup (gapped ++ .flush 1.220000001 :: gappedLater) gapped gappedLater 1.220000001
    (by decide +kernel) (by decide +kernel) rfl
  -- The shaped stepper, a pulse before the end of the short move.
  obtain ⟨m, hm, href, c, hc, hpos, hdur, hlow, hupp, hne⟩ : ∃ m ∈ ((prepared shapedSetup).after gapped).members,
      m.stepper.queue = some .toolhead ∧
      ∃ c ∈ ((((prepared shapedSetup).after gapped).held 1.220000001).queue .toolhead).cursor? 2,
        (0 : ℚ) < 0.070000001 ∧ 0.070000001 ≤ c.current.duration ∧ m.stepper.flushed < c.current.start + 0.070000001 ∧
        c.current.start + 0.070000001 ≤ ((prepared shapedSetup).after gapped).stepTime 1.220000001 ∧
        ((prepared shapedSetup).unflushed (gapped ++ .flush 1.220000001 :: gappedLater)).positionAt m.stepper.model
          .toolhead (c.current.start + 0.070000001) ≠ some (m.stepper.model.position c 0.070000001) := by
    decide +kernel
  exact hne ((hfaithful m hm _ href).1 2 c _ hc hpos hdur hlow hupp)

end PrinterMotion.StepGenerator
