/-
The searches of a stepper cover its motion. A flush searches ranges of time behind the last flush, one
behind the other. They contain every moment in the queue that lies in a segment which moves the stepper, or
in the windows before and after one: what motion was, the stepper remembers from flush to flush.

Only segments of the queue are searched, so what a window in front of the first segment asks for is not.
-/
import PrinterMotion.Proofs.Motion.Linked
import PrinterMotion.Proofs.Stepper.Plan
import PrinterMotion.Proofs.Stepper.Trajectory

namespace PrinterMotion

variable {F : Type} [Exact F]

/-! ## One flush -/

namespace StepTracker

variable {s s' : StepTracker F} {k : Kinematics F} {q : Queue F}

theorem searchSegment_lastActive (s : StepTracker F) (k : Kinematics F) (q : Queue F) (v : Visit F)
    (steps : Array (Step F)) : (s.searchSegment k q v steps).1.lastActive = s.lastActive := by
  rw [searchSegment_eq]
  split
  · rfl
  · unfold settle
    split <;> rfl

omit [Exact F] in
theorem noted_lastActive (s : StepTracker F) (v : Visit F) :
    (s.noted v).lastActive = v.activeUntil.getD s.lastActive := by
  unfold noted
  cases v.activeUntil <;> rfl

theorem runVisits_lastActive : ∀ {vs : List (Visit F)} {s : StepTracker F} {steps out : Array (Step F)},
    runVisits k q vs s steps = (s', .ok out) → s'.lastActive = Visit.lastUntil vs s.lastActive
  | [], _, _, _, h => by
    cases h
    rfl
  | v :: vs, s, steps, out, h => by
    obtain ⟨s₁, steps₁, hs, hrun⟩ := runVisits_cons_ok h
    have hkept : s₁.lastActive = s.lastActive := by
      rw [← searchSegment_lastActive s k q v steps, hs]
    rw [runVisits_lastActive hrun, noted_lastActive, hkept]
    rfl

end StepTracker

/-! ## Flushes of a stepper -/

/-- A flush of a stepper, with the tracker that it begins with. -/
structure Flush (F : Type) where
  tracker : StepTracker F
  queue : Queue F
  time : F

namespace Flush

/-- The searches of a flush. -/
def visits (k : Kinematics F) (f : Flush F) : List (Visit F) :=
  if f.time ≤ f.tracker.flushed then [] else f.tracker.visits k f.queue f.time

/-- The ranges of time that a flush searches, in order. -/
def ranges (k : Kinematics F) (f : Flush F) : List (F × F) := (f.visits k).filterMap (Visit.range? f.queue.active)

/-- A flush visits the segment `m`, which is queued at index `i`. -/
def Visits (k : Kinematics F) (f : Flush F) (i : Nat) (m : Segment F) : Prop :=
  f.queue.active[i]? = some m ∧ ∃ v ∈ f.visits k, v.segment = i

/-- What a flush is to its plan. -/
def scope (k : Kinematics F) (f : Flush F) : Visit.Scope F := ⟨k.axes, k.before, k.after, f.tracker.flushed, f.time⟩

/-- Flushes of a new stepper that all succeed, the latest first, with the tracker behind them. In between
segments may be queued. -/
inductive Succeed (k : Kinematics F) : List (Flush F) → StepTracker F → Prop where
  | new (stepDistance : F) : Succeed k [] (Rig.new stepDistance k).tracker
  | flush {fs : List (Flush F)} {s s' : StepTracker F} {q : Queue F} {time : F} {steps : Array (Step F)}
    (h : Succeed k fs s) (hq : Contiguous q.active)
    (hgrown : ∀ g ∈ fs.head?, g.queue.active.toList <+: q.active.toList)
    (hok : s.advance k (some q) time = (s', .ok steps)) : Succeed k (⟨s, q, time⟩ :: fs) s'

variable {k : Kinematics F} {f : Flush F} {fs : List (Flush F)} {s s' : StepTracker F}

/-- A flush that goes on runs the plan from the first segment that ends behind the last flush. -/
structure Runs (k : Kinematics F) (f : Flush F) (s' : StepTracker F) (first : Nat) : Prop where
  flushed_lt : f.tracker.flushed < f.time
  flushed : s'.flushed = f.time
  lastActive : s'.lastActive = Visit.lastUntil (f.visits k) f.tracker.lastActive
  reaches : ∃ last, f.queue.active[f.queue.active.size - 1]? = some last ∧ f.time ≤ last.finish
  first_le_iff : ∀ l n, f.queue.active[l]? = some n → (first ≤ l ↔ f.tracker.flushed < n.finish)
  begun : first = 0 ∨ ∀ n, f.queue.active[first]? = some n → n.start ≤ f.tracker.flushed
  visits_eq : f.visits k = Visit.plan (f.scope k) f.queue.active (f.queue.active.toList.drop first) first
    (f.tracker.lastActive + k.after) 0

/-- A flush that succeeds runs its plan, or has nothing to do. -/
theorem runs_of_ok (hq : Contiguous f.queue.active) {steps : Array (Step F)}
    (hok : f.tracker.advance k (some f.queue) f.time = (s', .ok steps)) :
    (∃ first, f.Runs k s' first) ∨ f.time ≤ f.tracker.flushed ∧ f.visits k = [] ∧ s' = f.tracker := by
  rcases StepTracker.advance_cases f.tracker k (some f.queue) f.time with
    ⟨⟨answer, hanswer, hcase⟩, -⟩ | ⟨q, finish, hsome, hfin, hlt, hle, hrun, -⟩
  · rw [hok] at hanswer
    cases hanswer
    rcases hcase with ⟨-, hle⟩ | ⟨finish, h⟩
    · exact .inr ⟨hle, by rw [visits, if_pos hle], rfl⟩
    · cases h
  · cases hsome
    obtain ⟨last, hlast, rfl⟩ := StepTracker.exists_last hfin
    obtain ⟨first, m, hfirst, hm, hfinish, hbegun⟩ := StepTracker.exists_firstAfter hq (hlt.trans_le hle) hfin
    have hvisits : f.visits k = f.tracker.visits k f.queue f.time := by rw [visits, if_neg (not_le.2 hlt)]
    rw [hrun] at hok
    refine .inl ⟨first, hlt, ?_, ?_, ⟨last, hlast, hle⟩, fun l n hn => ⟨fun hl => ?_, fun hbehind => ?_⟩, ?_, ?_⟩
    · have hflushed := StepTracker.runVisits_flushed k f.queue (f.tracker.visits k f.queue f.time)
        { f.tracker with flushed := f.time } #[]
      rw [hok] at hflushed
      exact hflushed
    · have hactive := StepTracker.runVisits_lastActive hok
      rwa [hvisits]
    · rcases hl.eq_or_lt with rfl | hl
      · rw [hm] at hn
        cases hn
        exact hfinish
      · exact hfinish.trans_le ((hq.finish_le_start hm hn hl).trans (hq.start_le_finish hn))
    · by_contra hl
      rcases hbegun with h0 | hstart
      · omega
      · have := hq.finish_le_start hn hm (not_le.1 hl)
        linarith
    · refine hbegun.imp_right fun hstart n hn => ?_
      rw [hm] at hn
      cases hn
      exact hstart
    · rw [hvisits, StepTracker.visits, hfirst]
      rfl

theorem Succeed.latest (h : Succeed k (f :: fs) s) : Succeed k fs f.tracker ∧ Contiguous f.queue.active ∧
    ∃ steps, f.tracker.advance k (some f.queue) f.time = (s, .ok steps) := by
  cases h with
  | flush h hq _ hok => exact ⟨h, hq, _, hok⟩

theorem Succeed.next (h : Succeed k fs s) (q : Queue F) (time : F) (hq : Contiguous q.active)
    (hgrown : ∀ g ∈ fs.head?, g.queue.active.toList <+: q.active.toList)
    (hok : (s.advance k (some q) time).2.isOk = true) :
    Succeed k (⟨s, q, time⟩ :: fs) (s.advance k (some q) time).1 := by
  cases hanswer : (s.advance k (some q) time).2 with
  | error e =>
    rw [hanswer] at hok
    cases hok
  | ok steps => exact .flush h hq hgrown (Prod.ext rfl hanswer)

/-- The queues of earlier flushes are the beginning of that of the latest. -/
theorem Succeed.isPrefix (h : Succeed k (f :: fs) s) : ∀ g ∈ fs, g.queue.active.toList <+: f.queue.active.toList := by
  induction fs generalizing f s with
  | nil => exact nofun
  | cons g fs ih =>
    cases h with
    | flush h hq hgrown hok =>
      intro g' hg'
      rcases List.mem_cons.1 hg' with rfl | hg'
      · exact hgrown _ rfl
      · exact (ih h g' hg').trans (hgrown g rfl)

omit [Exact F] in
theorem getElem?_of_isPrefix {segs segs' : Array (Segment F)} (h : segs.toList <+: segs'.toList) {i : Nat}
    {m : Segment F} (hm : segs[i]? = some m) : segs'[i]? = some m := by
  obtain ⟨later, hlater⟩ := h
  rw [← Array.getElem?_toList] at hm ⊢
  rw [← hlater, List.getElem?_append_left (List.getElem?_eq_some_iff.1 hm).1, hm]

/-- What a tracker knows of motion. -/
structure Remembers (k : Kinematics F) (fs : List (Flush F)) (s : StepTracker F) : Prop where
  lastActive_le : s.lastActive ≤ s.flushed
  /-- Motion that was visited is over and noted, or goes on behind the last flush. -/
  visited : ∀ g ∈ fs, ∀ v ∈ g.visits k, ∀ m, g.queue.active[v.segment]? = some m →
    k.axes.meets m.direction = true →
      (m.finish ≤ s.lastActive ∨ s.flushed < m.finish) ∧ (v.segment = 0 ∨ m.start < s.flushed + k.before)

/-- A flush keeps what the tracker knows, and adds what it visits. -/
theorem Remembers.runs (h : Remembers k fs f.tracker) (hbefore : 0 ≤ k.before) (hq : Contiguous f.queue.active)
    (hgrown : ∀ g ∈ fs, g.queue.active.toList <+: f.queue.active.toList) {first : Nat} (hruns : f.Runs k s' first) :
    Remembers k (f :: fs) s' := by
  have hlt := hruns.flushed_lt
  obtain ⟨hle, hupp, hall⟩ := Visit.plan_until (f.scope k) hq _ first (f.tracker.lastActive + k.after) 0
    f.tracker.lastActive rfl (Nat.zero_le _) (h.lastActive_le.trans hlt.le)
    fun l n hl hn => h.lastActive_le.trans ((hruns.first_le_iff l n hn).1 hl).le
  rw [← hruns.visits_eq, ← hruns.lastActive] at hle hupp hall
  -- Motion behind the last flush that the plan does not stop in front of is noted, or goes on.
  have hnoted : ∀ l n, f.queue.active[l]? = some n → k.axes.meets n.direction = true → first ≤ l →
      (l = 0 ∨ n.start < f.time + k.before) → n.finish ≤ s'.lastActive ∨ s'.flushed < n.finish := by
    intro l n hn hmoves hl hnear
    rcases le_or_gt n.finish f.time with hin | hout
    · exact .inl (hall l n hl hn hmoves hin hnear)
    · rw [hruns.flushed]
      exact .inr hout
  refine ⟨by rwa [hruns.flushed], fun g hg v hv n hn hmoves => ?_⟩
  rw [hruns.flushed]
  rcases List.mem_cons.1 hg with rfl | hg
  · rw [hruns.visits_eq] at hv
    have hbegun : first = 0 ∨ ∀ o, g.queue.active[first]? = some o → o.start < g.time + k.before :=
      hruns.begun.imp_right fun hstart o ho => (hstart o ho).trans_lt (by linarith)
    obtain ⟨hl, hnear⟩ := Visit.plan_near hq hbefore _ first _ 0 rfl (Nat.zero_le _) (fun l o h1 h2 => by omega) hbegun
      v hv n hn hmoves
    rw [← hruns.flushed]
    exact ⟨hnoted _ n hn hmoves hl hnear, by rwa [hruns.flushed]⟩
  · obtain ⟨hdone, hnear⟩ := h.visited g hg v hv n hn hmoves
    have hn' := getElem?_of_isPrefix (hgrown g hg) hn
    have hlater : v.segment = 0 ∨ n.start < f.time + k.before := hnear.imp_right fun h => by linarith
    refine ⟨?_, hlater⟩
    rcases hdone with hdone | hgoes
    · exact .inl (hdone.trans hle)
    · rw [← hruns.flushed]
      exact hnoted _ n hn' hmoves ((hruns.first_le_iff _ n hn').2 hgoes) hlater

theorem Succeed.remembers (hbefore : 0 ≤ k.before) (h : Succeed k fs s) : Remembers k fs s := by
  induction h with
  | new d => exact ⟨le_refl _, nofun⟩
  | @flush fs s s' q time steps h hq hgrown hok ih =>
    rcases runs_of_ok (f := ⟨s, q, time⟩) hq hok with ⟨first, hruns⟩ | ⟨-, hnone, rfl⟩
    · exact Remembers.runs (f := ⟨s, q, time⟩) ih hbefore hq (Succeed.flush h hq hgrown hok).isPrefix hruns
    · refine ⟨ih.lastActive_le, fun g hg v hv => ?_⟩
      rcases List.mem_cons.1 hg with rfl | hg
      · rw [hnone] at hv
        cases hv
      · exact ih.visited g hg v hv

/-- A time behind the start of a queue and not behind its end lies in one of its segments. -/
theorem exists_moment {segs : Array (Segment F)} (hq : Contiguous segs) {t : F}
    (hstart : ∀ first ∈ segs[0]?, first.start < t) : ∀ {l : Nat} {n : Segment F}, segs[l]? = some n → t ≤ n.finish →
      ∃ (j : Nat) (s : Segment F), segs[j]? = some s ∧ s.start < t ∧ t ≤ s.finish
  | 0, n, hn, ht => ⟨0, n, hn, hstart n hn, ht⟩
  | l + 1, n, hn, ht => by
    by_cases hlow : n.start < t
    · exact ⟨l + 1, n, hn, hlow, ht⟩
    · obtain ⟨o, ho⟩ := Contiguous.exists_of_le hn (Nat.le_succ l)
      refine exists_moment hq hstart ho ?_
      rw [← hq.meets l o n ho hn]
      exact not_lt.1 hlow

/-- The searches of a flush go forward in time, do not overlap and lie behind the last flush and not behind
the time it is for. They contain every moment in between, behind the start of the queue, that lies in a
segment which moves the stepper or in the windows before and after it, if that segment was still to end at the
last flush, or has been visited by an earlier one. -/
theorem searches_cover (hbefore : 0 ≤ k.before) (h : Succeed k (f :: fs) s) :
    (f.ranges k).Pairwise (fun r r' => r.2 ≤ r'.1) ∧
      (∀ r ∈ f.ranges k, f.tracker.flushed ≤ r.1 ∧ r.1 < r.2 ∧ r.2 ≤ f.time) ∧
        ∀ t, f.tracker.flushed < t → t ≤ f.time → (∀ first ∈ f.queue.active[0]?, first.start < t) →
          (∃ i m, f.queue.active[i]? = some m ∧ k.axes.meets m.direction = true ∧
            (f.tracker.flushed < m.finish ∨ ∃ g ∈ fs, g.Visits k i m) ∧
              m.start - k.before < t ∧ t ≤ m.finish + k.after) →
            ∃ r ∈ f.ranges k, r.1 < t ∧ t ≤ r.2 := by
  obtain ⟨h, hq, steps, hok⟩ := h.latest
  have hordered : Visit.Ordered f.queue.active f.time f.tracker.flushed (f.visits k) := by
    rw [visits]
    split
    · trivial
    · exact StepTracker.visits_ordered k hq f.time
  obtain ⟨hpair, hbounds⟩ := hordered.ranges
  refine ⟨hpair, hbounds, fun t hflushed htime hstart ⟨i, m, hm, hmoves, hcase, hwindow, hafter⟩ => ?_⟩
  obtain ⟨first, hruns⟩ := (runs_of_ok hq hok).resolve_right fun h => absurd h.1 (not_le.2 (hflushed.trans_le htime))
  obtain ⟨last, hlast, hreach⟩ := hruns.reaches
  obtain ⟨j, u, hu, hlow, hupp⟩ := exists_moment hq hstart hlast (htime.trans hreach)
  have hj : first ≤ j := (hruns.first_le_iff j u hu).2 (hflushed.trans_le hupp)
  have hknown := h.remembers hbefore
  have hdue : Visit.Due (f.scope k) f.queue.active t first j (f.tracker.lastActive + k.after) 0 := by
    have hahead : f.tracker.flushed < m.finish →
        Visit.Due (f.scope k) f.queue.active t first j (f.tracker.lastActive + k.after) 0 :=
      fun hgoes => .ahead hj ((hruns.first_le_iff i m hm).2 hgoes) hm hmoves hwindow hafter
    rcases hcase with hgoes | ⟨g, hg, hmg, v, hv, rfl⟩
    · exact hahead hgoes
    · rcases (hknown.visited g hg v hv m hmg hmoves).1 with hdone | hgoes
      · exact .trailing hj (hafter.trans (add_le_add_left hdone _))
      · exact hahead hgoes
  have hforced : ∀ l n, first ≤ l → f.queue.active[l]? = some n → f.tracker.lastActive + k.after ≤ n.finish + k.after :=
    fun l n hl hn => add_le_add_left (hknown.lastActive_le.trans ((hruns.first_le_iff l n hn).1 hl).le) _
  have hmoment : Visit.Moment (f.scope k) f.queue.active t j u := ⟨hu, hlow, hupp, hflushed, htime⟩
  obtain ⟨v, hv, r, hr, hcovers⟩ := Visit.plan_covers hq hbefore hmoment _ first _ 0 rfl hforced hdue
  rw [← hruns.visits_eq] at hv
  exact ⟨r, List.mem_filterMap.2 ⟨v, hv, hr⟩, hcovers⟩

/-- A model with windows of two seconds, whose position does not change. -/
def fixed : Kinematics ℚ := ⟨"fixed", ⟨true, false, false⟩, 2, 2, fun _ _ => 0, fun _ => true⟩

/-- A move from 10 s to 11 s, with a second of a hold in front of it. -/
def lateMove : Queue ℚ := .after [.add ⟨10, 1, 1, 0, ⟨0, 0, 0⟩, ⟨1, 0, 0⟩, .cruise⟩]

/-- The same with another move behind a hold of three seconds. -/
def twoLateMoves : Queue ℚ := lateMove.run (.add ⟨14, 1, 1, 0, ⟨1, 0, 0⟩, ⟨1, 0, 0⟩, .cruise⟩)

/-- Behind the end of the first move, which was flushed already, its window is searched. -/
theorem searches_cover_twoLateMoves : ∃ f g s, Succeed fixed [f, g] s ∧ g.queue.size = 2 ∧ f.queue.size = 4 ∧
    g.time = 11 ∧ f.time = 13 ∧ ∃ r ∈ f.ranges fixed, r.1 < 23 / 2 ∧ 23 / 2 ≤ r.2 := by
  have hq : Joined ⟨⟨0, 0, 0⟩, 9⟩ lateMove.active.toList := by decide +kernel
  have hq' : Joined ⟨⟨0, 0, 0⟩, 9⟩ twoLateMoves.active.toList := by decide +kernel
  have hfirst := (Succeed.new (k := fixed) 1).next lateMove 11 hq.contiguous (by simp) (by decide +kernel)
  have hboth := hfirst.next twoLateMoves 13 hq'.contiguous (by decide +kernel) (by decide +kernel)
  have hcover := (searches_cover (by decide +kernel) hboth).2.2 (23 / 2) (by decide +kernel) (by norm_num)
    (by decide +kernel) ⟨1, ⟨10, 1, 1, 0, ⟨0, 0, 0⟩, ⟨1, 0, 0⟩, .cruise⟩, by decide +kernel, by decide +kernel,
      .inr ⟨_, List.mem_singleton_self _, by decide +kernel, by decide +kernel⟩, by decide +kernel, by decide +kernel⟩
  exact ⟨_, _, _, hboth, by decide +kernel, by decide +kernel, rfl, rfl, hcover⟩

/-- A window of two seconds reaches further back than the hold of one second in front of the first move, and
there nothing is searched. -/
theorem not_searches_cover_lead_in : ∃ f s, Succeed fixed [f] s ∧ 0 ≤ fixed.before ∧ 0 ≤ fixed.after ∧
    f.tracker.flushed < 17 / 2 ∧ 17 / 2 ≤ f.time ∧
      (∃ (i : Nat) (m : Segment ℚ), f.queue.active[i]? = some m ∧ fixed.axes.meets m.direction = true ∧
        f.tracker.flushed < m.finish ∧ m.start - fixed.before < 17 / 2 ∧ 17 / 2 ≤ m.finish + fixed.after) ∧
          ∀ r ∈ f.ranges fixed, ¬ (r.1 < 17 / 2 ∧ 17 / 2 ≤ r.2) := by
  have hq : Joined ⟨⟨0, 0, 0⟩, 9⟩ lateMove.active.toList := by decide +kernel
  have hflush := (Succeed.new (k := fixed) 1).next lateMove 11 hq.contiguous (by simp) (by decide +kernel)
  exact ⟨_, _, hflush, by decide +kernel, by decide +kernel, by decide +kernel, by norm_num,
    ⟨1, ⟨10, 1, 1, 0, ⟨0, 0, 0⟩, ⟨1, 0, 0⟩, .cruise⟩, by decide +kernel, by decide +kernel, by decide +kernel,
      by decide +kernel, by decide +kernel⟩, by decide +kernel⟩

end Flush

end PrinterMotion
