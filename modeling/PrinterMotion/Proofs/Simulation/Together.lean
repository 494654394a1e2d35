/-
Reports that arrive at one time. Pending events come in the order of their times, and those of one time in
the order in which they were scheduled. When a report arrives, the ones behind it go to the dispatch with
it as long as they arrive at the same time. So the reports of one time are handed over together unless an
event of another kind, of the same time, was scheduled before the last of them; then the first part decides
who triggers, without the rest.
-/
import PrinterMotion.Proofs.Simulation.Trip
import PrinterMotion.Proofs.Trsync.Permutation

namespace PrinterMotion

variable {α : Type}

/-! ## Taking from the front -/

/-- Of a list in strict order, what is taken as long as it is accepted is what comes before all that is
not. -/
theorem mem_takeWhile_iff {β : Type} {r : β → β → Prop} (asymm : ∀ {a b}, r a b → ¬ r b a) {p : β → Bool} {b : β} :
    ∀ {l : List β}, l.Pairwise r → (b ∈ l.takeWhile p ↔ b ∈ l ∧ ∀ c ∈ l, p c = false → r b c)
  | [], _ => by simp
  | a :: l, h => by
    obtain ⟨ha, hl⟩ := List.pairwise_cons.1 h
    have ih := mem_takeWhile_iff asymm (p := p) (b := b) hl
    by_cases hp : p a = true
    · rw [List.takeWhile_cons_of_pos hp, List.mem_cons, ih, List.mem_cons]
      constructor
      · rintro (rfl | ⟨hb, hc⟩)
        · refine ⟨.inl rfl, fun c hc hpc => ?_⟩
          rcases List.mem_cons.1 hc with rfl | hc
          · rw [hp] at hpc
            cases hpc
          · exact ha c hc
        · refine ⟨.inr hb, fun c hc' hpc => ?_⟩
          rcases List.mem_cons.1 hc' with rfl | hc'
          · rw [hp] at hpc
            cases hpc
          · exact hc c hc' hpc
      · rintro ⟨rfl | hb, hc⟩
        · exact .inl rfl
        · exact .inr ⟨hb, fun c hc' => hc c (List.mem_cons_of_mem _ hc')⟩
    · -- the first element is not accepted, and nothing comes before it
      have hpa : p a = false := by simpa using hp
      rw [List.takeWhile_cons_of_neg hp]
      constructor
      · intro hb
        cases hb
      · rintro ⟨hb, hc⟩
        have hba := hc a List.mem_cons_self hpa
        rcases List.mem_cons.1 hb with rfl | hb
        · exact absurd hba (asymm hba)
        · exact absurd hba (asymm (ha b hb))

/-! ## Winners -/

/-- Strict order of times, in which times that do not compare stand at one place. -/
structure TimeOrder (α : Type) [Scalar α] : Prop where
  irrefl : ∀ a : α, Scalar.totalLt a a = false
  trans : ∀ {a b c : α}, Scalar.totalLt a b = true → Scalar.totalLt b c = true → Scalar.totalLt a c = true
  split : ∀ {a c : α} (b : α), Scalar.totalLt a c = true → Scalar.totalLt a b = true ∨ Scalar.totalLt b c = true

theorem timeOrder_of_exact {F : Type} [Exact F] : TimeOrder F := by
  constructor
  · simp
  · intro a b c h h'
    simp only [Scalar.totalLt_eq, decide_eq_true_eq] at *
    exact h.trans h'
  · intro a c b h
    simp only [Scalar.totalLt_eq, decide_eq_true_eq] at *
    exact (lt_or_ge a b).imp_right fun hb => hb.trans_lt h

theorem timeOrder_float : TimeOrder Float := by
  have hkey : ∀ a b : Float, Scalar.totalLt a b = decide (Decimal.totalKey a < Decimal.totalKey b) := fun _ _ => rfl
  constructor
  · simp [hkey]
  · intro a b c h h'
    simp only [hkey, decide_eq_true_eq] at *
    exact h.trans h'
  · intro a c b h
    simp only [hkey, decide_eq_true_eq] at *
    omega

namespace Dispatch

variable [Scalar α]

theorem earlier_self (order : TimeOrder α) (a : Trip α) : a.earlier a = false := by
  simp [Trip.earlier, order.irrefl]

theorem earlier_of_earlier (order : TimeOrder α) (a b c : Trip α) (h : a.earlier b = true)
    (h' : b.earlier c = true) : a.earlier c = true := by
  simp only [Trip.earlier, Bool.or_eq_true, Bool.and_eq_true, Bool.not_eq_true', decide_eq_true_eq] at h h' ⊢
  rcases h with h | ⟨h, hp⟩ <;> rcases h' with h' | ⟨h', hp'⟩
  · exact .inl (order.trans h h')
  · left
    rcases order.split c.hostTime h with hac | hcb
    · exact hac
    · rw [h'] at hcb
      cases hcb
  · left
    rcases order.split a.hostTime h' with hba | hac
    · rw [h] at hba
      cases hba
    · exact hac
  · refine .inr ⟨?_, hp.trans hp'⟩
    by_contra hca
    rcases order.split b.hostTime (by simpa using hca) with hcb | hba
    · rw [h'] at hcb
      cases hcb
    · rw [h] at hba
      cases hba

/-- A trigger is that of the first of the trips that the reports tell of. -/
theorem trip_of_triggered {d : Dispatch α} {us : List StatusUpdate} {outcomes : List (StatusOutcome α)}
    {event : TriggerEvent α} (ho : (d.batch us).2.2 = .ok outcomes) (he : .triggered event ∈ outcomes) :
    ∃ t, firstBy Trip.earlier (trips 0 us (d.noteAll us).2) = some t ∧ event.endpoint = t.place ∧
      event.clock = t.clock ∧ event.hostTime = t.hostTime := by
  have htold : Decision.triggered event ∈ answerDecisions (d.batch us).2.2 := by
    rw [ho]
    exact List.mem_filterMap.2 ⟨_, he, rfl⟩
  clear ho he
  obtain ⟨d', fs, hn⟩ : ∃ d' fs, d.noteAll us = (d', fs) := ⟨_, _, rfl⟩
  unfold batch at htold
  split at htold
  · cases htold
  · simp only [hn] at htold ⊢
    have aborts : ∀ l ∈ lapses us fs, Decision.triggered event ∉ answerDecisions (d'.abort l.error).2.2 := by
      intro l hl hmem
      obtain ⟨-, u, clock, expire, -, -, hlapsed⟩ := exists_of_mem_lapses us fs l hl
      simp [abort, hlapsed, answerDecisions] at hmem
    split at htold
    · rename_i t hfirst
      split at htold
      · rename_i l hlapse
        exact absurd htold (aborts l (firstBy_mem (Option.filter_eq_some_iff.1 hlapse).1))
      · refine ⟨t, hfirst, ?_⟩
        obtain ⟨i, u, hu, hf, hpos⟩ := exists_of_mem_trips us fs 0 t (firstBy_mem hfirst)
        have hi : t.position < fs.length := by
          rw [hpos, Nat.zero_add]
          exact (List.getElem?_eq_some_iff.1 hf).1
        have hanswer := answer_fire fs hi (d'.fire t).2.2
        rw [hanswer, List.mem_singleton] at htold
        cases htold
        exact ⟨rfl, rfl, rfl⟩
    · rename_i l _ hlapse
      exact absurd htold (aborts l (firstBy_mem hlapse))
    · rw [extendAll_answer] at htold
      cases htold

/-- No trip that the reports tell of was earlier than the one that triggered, nor at the same time if its
endpoint was registered first. -/
theorem trigger_first (order : TimeOrder α) {d : Dispatch α} {us : List StatusUpdate}
    {outcomes : List (StatusOutcome α)} {event : TriggerEvent α} (ho : (d.batch us).2.2 = .ok outcomes)
    (he : .triggered event ∈ outcomes) {i : Nat} {u : StatusUpdate} {clock : UInt64} {hostTime : α}
    (hu : us[i]? = some u) (hf : (d.noteAll us).2[i]? = some (.trip clock hostTime)) :
    Scalar.totalLt hostTime event.hostTime = false ∧
      (Scalar.totalLt event.hostTime hostTime = false → event.endpoint ≤ u.place.getD 0) := by
  obtain ⟨t, hfirst, hplace, -, htime⟩ := trip_of_triggered ho he
  have hnot := not_before_firstBy (earlier_self order) (earlier_of_earlier order) hfirst _ (mem_trips_of 0 hu hf)
  simp only [Trip.earlier, ← htime, ← hplace, Bool.or_eq_false_iff, Bool.and_eq_false_imp, Bool.not_eq_true',
    decide_eq_false_iff_not, not_lt] at hnot
  exact hnot

end Dispatch

namespace HomingSimulation

variable [Scalar α]

/-! ## The order of events in a simulation -/

theorem ordered_deliver {s s' : HomingSimulation α} {p : Post} (h : s.events.Ordered) (hs : s.deliver p = .ok s') :
    s'.events.Ordered := by
  rcases deliver_eq_ok hs with ⟨-, rfl⟩ | ⟨c, -, rfl⟩
  · exact h
  · exact h.schedule _ _

theorem ordered_deliverAll {s s' : HomingSimulation α} {posts : List Post} (h : s.events.Ordered)
    (hs : s.deliverAll posts = .ok s') : s'.events.Ordered :=
  foldlM_keeps (P := fun s : HomingSimulation α => s.events.Ordered) ordered_deliver h hs

theorem ordered_sendReport {s s' : HomingSimulation α} {place : Nat} {c : SimulatedController α}
    (h : s.events.Ordered) (hs : s.sendReport place c = .ok s') : s'.events.Ordered := by
  rcases sendReport_eq_ok hs with ⟨-, rfl⟩ | rfl
  · exact h
  · exact h.schedule _ _

theorem ordered_receive {s s' : HomingSimulation α} {arrivals : List (Nat × StatusReport)} (h : s.events.Ordered)
    (hs : s.receive arrivals = .ok s') : s'.events.Ordered := by
  obtain ⟨extensions, lapse, -, hdeliver⟩ := receive_eq_ok hs
  refine ordered_deliverAll ?_ hdeliver
  exact h

theorem ordered_happen {s s' : HomingSimulation α} {time : Instant} {event : SimulationEvent}
    (h : s.events.Ordered) (hs : s.happen time event = .ok s') : s'.events.Ordered := by
  cases event with
  | sample place =>
    simp only [happen] at hs
    split at hs
    · cases hs
      exact h
    · obtain ⟨s₁, hsend, hs⟩ := bind_eq_ok.1 hs
      have hsent := ordered_sendReport h hsend
      split at hs
      · obtain ⟨next, -, hs⟩ := bind_eq_ok.1 hs
        cases hs
        exact hsent.schedule _ _
      · cases hs
        exact hsent
  | endstop place =>
    simp only [happen] at hs
    split at hs
    · cases hs
      exact h
    · exact ordered_sendReport h hs
  | arrival place report =>
    simp only [happen, EventQueue.popWhile] at hs
    refine ordered_receive ?_ hs
    exact h.sublist (List.dropWhile_sublist _)
  | order place command =>
    cases hs
    obtain ⟨controllers, heq⟩ := s.obey_frame place command
    rw [heq]
    exact h

theorem ordered_step {s s' : HomingSimulation α} {finish : Instant} {more : Bool} (h : s.events.Ordered)
    (hs : s.step finish = .ok (more, s')) : s'.events.Ordered := by
  cases hp : s.events.pending with
  | nil =>
    simp only [step, EventQueue.pop, hp] at hs
    cases hs
    exact h
  | cons e rest =>
    have hrest : ({ s.events with pending := rest } : EventQueue SimulationEvent).Ordered :=
      h.sublist (by rw [hp]; exact List.sublist_cons_self _ _)
    rw [step_eq hp] at hs
    split at hs
    · cases hs
      exact hrest
    · split at hs
      · rename_i hh
        cases hs
        refine ordered_happen ?_ hh
        exact hrest
      · cases hs

theorem ordered_begin {s s' : HomingSimulation α} {start : Instant} (h : s.events.Ordered)
    (hs : s.begin start = .ok s') : s'.events.Ordered := by
  obtain ⟨-, s₁, hdeliver, hs⟩ := begin_eq_ok hs
  have hposted : s₁.events.Ordered := by
    refine ordered_deliverAll ?_ hdeliver
    exact h
  exact scheduleAll_keeps (fun s => s.events.Ordered) (fun time _ h => ⟨h.schedule time _, h.schedule time _⟩)
    hposted hs

theorem ordered_settle (s : HomingSimulation α) : s.settle.events.Ordered := by
  refine List.foldlRecOn (motive := fun s : HomingSimulation α => s.events.Ordered) s.events.pending _
    ⟨List.Pairwise.nil, by simp⟩ fun s h e _ => ?_
  split
  · rename_i place command _
    obtain ⟨controllers, heq⟩ := obey_frame { s with clock := s.clock.advance e.time } place command
    rw [heq]
    exact h
  · exact h

theorem ordered_run {s last : HomingSimulation α} {limit : Nat} {report : HomingReport α}
    (hrun : s.runFor limit = .ok (last, report)) : last.events.Ordered := by
  obtain @⟨-, -, -, -, stopped⟩ := ran_of_runFor hrun
  exact ordered_settle stopped

theorem ordered_of? {scenario : Scenario α} {s : HomingSimulation α} (h : of? scenario = .ok s) :
    s.events.Ordered :=
  ⟨by rw [(prepared_of? h).pending]; exact List.Pairwise.nil, by simp [(prepared_of? h).pending]⟩

/-- The states of the simulation of a scenario: it is set up, it begins, an event happens or the window
ends, and a run that is over leaves it ready for another one. -/
inductive Reached (scenario : Scenario α) : HomingSimulation α → Prop
  | ready {s : HomingSimulation α} (h : of? scenario = .ok s) : Reached scenario s
  | begun {s s' : HomingSimulation α} {start : Instant} (before : Reached scenario s)
      (h : s.begin start = .ok s') : Reached scenario s'
  | step {s s' : HomingSimulation α} {finish : Instant} {more : Bool} (before : Reached scenario s)
      (h : s.step finish = .ok (more, s')) : Reached scenario s'
  | run {s s' : HomingSimulation α} {limit : Nat} {report : HomingReport α} (before : Reached scenario s)
      (h : s.runFor limit = .ok (s', report)) : Reached scenario s'

theorem Reached.ordered {scenario : Scenario α} {s : HomingSimulation α} (h : Reached scenario s) :
    s.events.Ordered := by
  induction h with
  | ready h => exact ordered_of? h
  | begun _ h ih => exact ordered_begin ih h
  | step _ h ih => exact ordered_step ih h
  | run _ h _ => exact ordered_run h

/-! ## Reports handed over together -/

/-- The events at the head of the queue that are arrivals of reports at a time. -/
def together (s : HomingSimulation α) (time : Instant) : List (Scheduled SimulationEvent) :=
  s.events.pending.takeWhile fun f => f.time == time && f.event.isArrival

/-- The reports that arrive in events, for the endpoints of their controllers. -/
def updatesOf (events : List (Scheduled SimulationEvent)) : List StatusUpdate :=
  (events.filterMap fun e => e.event.arrival?).map fun (place, report) => ⟨some place, report⟩

omit [Scalar α] in
/-- The arrivals at the head are those scheduled before any other event of their time. -/
theorem mem_together_iff {s : HomingSimulation α} (h : s.events.Ordered) {e f : Scheduled SimulationEvent}
    {rest : List (Scheduled SimulationEvent)} (hp : s.events.pending = e :: rest) (hf : f ∈ s.events.pending) :
    f ∈ s.together e.time ↔ f.time = e.time ∧ f.event.isArrival = true ∧
      ∀ g ∈ s.events.pending, g.time = e.time → g.event.isArrival = false → f.number < g.number := by
  rw [together, mem_takeWhile_iff Scheduled.Before.asymm h.sorted]
  constructor
  · rintro ⟨-, hbefore⟩
    have haccepted : (f.time == e.time && f.event.isArrival) = true := by
      by_contra hnot
      have hself := hbefore f hf (by simpa using hnot)
      exact hself.asymm hself
    obtain ⟨htime, harrival⟩ := Bool.and_eq_true_iff.1 haccepted
    refine ⟨beq_iff_eq.1 htime, harrival, fun g hg hgt hga => ?_⟩
    rcases hbefore g hg (by simp [hga]) with hlt | ⟨-, hlt⟩
    · rw [hgt, beq_iff_eq.1 htime] at hlt
      exact absurd hlt (Nat.lt_irrefl _)
    · exact hlt
  · rintro ⟨htime, harrival, hbefore⟩
    refine ⟨hf, fun g hg hno => ?_⟩
    -- nothing that is pending comes before the head
    have hle : e.time ≤ g.time := by
      have hsorted := h.sorted
      rw [hp] at hg hsorted
      rcases List.mem_cons.1 hg with rfl | hg
      · exact Nat.le_refl _
      · exact ((List.pairwise_cons.1 hsorted).1 g hg).le
    rcases Nat.lt_or_eq_of_le hle with hlt | heq
    · exact .inl (by rw [htime]; exact hlt)
    · have hga : g.event.isArrival = false := by simpa [heq] using hno
      exact .inr ⟨htime.trans heq, hbefore g hg heq.symm hga⟩

/-- When a report arrives, the dispatch is handed at once all reports that arrive at that time and were
scheduled before any other event of that time, and they are under way no longer. If they trigger, none of
them tells of a trigger at an earlier host time, nor at the same time by an endpoint registered before. -/
theorem reports_together (order : TimeOrder α) {scenario : Scenario α} {s s' : HomingSimulation α}
    (hr : Reached scenario s) {e : Scheduled SimulationEvent} {rest : List (Scheduled SimulationEvent)}
    (hp : s.events.pending = e :: rest) (ha : e.event.isArrival = true) {finish : Instant}
    (hs : s.step finish = .ok (true, s')) :
    (s.together e.time <+: s.events.pending ∧ ∀ f ∈ s.events.pending, f ∈ s.together e.time ↔
      f.time = e.time ∧ f.event.isArrival = true ∧
        ∀ g ∈ s.events.pending, g.time = e.time → g.event.isArrival = false → f.number < g.number) ∧
    (∀ place, s.underway place = reportsFrom place (s.together e.time) ++ s'.underway place) ∧
    ∃ posts answer, s.dispatch.batch (updatesOf (s.together e.time)) = (s'.dispatch, posts, answer) ∧
      ∀ outcomes event, answer = .ok outcomes → .triggered event ∈ outcomes →
        ∀ (i : Nat) (u : StatusUpdate) (clock : UInt64) (hostTime : α),
          (updatesOf (s.together e.time))[i]? = some u →
          (s.dispatch.noteAll (updatesOf (s.together e.time))).2[i]? = some (.trip clock hostTime) →
            Scalar.totalLt hostTime event.hostTime = false ∧
              (Scalar.totalLt event.hostTime hostTime = false → event.endpoint ≤ u.place.getD 0) := by
  refine ⟨⟨List.takeWhile_prefix _, fun f hf => mem_together_iff hr.ordered hp hf⟩, ?_⟩
  obtain ⟨e', rest', hp', -, hh⟩ := step_eq_true hs
  rw [hp] at hp'
  cases hp'
  obtain ⟨q, r, he⟩ : ∃ q r, e.event = .arrival q r := by
    cases he : e.event <;> rw [he] at ha <;> first | exact ⟨_, _, rfl⟩ | cases ha
  have hhead : s.together e.time = e :: rest.takeWhile fun f => f.time == e.time && f.event.isArrival := by
    rw [together, hp]
    exact List.takeWhile_cons_of_pos (by rw [ha]; simp)
  simp only [he, happen, EventQueue.popWhile] at hh
  obtain ⟨hhandles, -, -, hunder, -⟩ := receive_handles hh
  refine ⟨fun place => ?_, ?_⟩
  · rw [hunder, hhead]
    have happend := reportsFrom_append place (e :: rest.takeWhile fun f => f.time == e.time && f.event.isArrival)
      (rest.dropWhile fun f => f.time == e.time && f.event.isArrival)
    rw [List.cons_append, List.takeWhile_append_dropWhile, ← hp] at happend
    exact happend
  · have hupdates : updatesOf (s.together e.time) = ((q, r) :: (rest.takeWhile fun f =>
        f.time == e.time && f.event.isArrival).filterMap fun e => e.event.arrival?).map
          fun (place, report) => ⟨some place, report⟩ := by
      rw [hhead, updatesOf, List.filterMap_cons_some (by rw [he]; rfl)]
    rw [hupdates]
    refine ⟨_, _, Prod.ext hhandles.dispatch.symm rfl, fun outcomes event ho hmem i u clock hostTime hu hf => ?_⟩
    exact Dispatch.trigger_first order ho hmem hu hf

theorem Reached.course {scenario : Scenario α} {finish : Instant} : ∀ {n : Nat} {s last : HomingSimulation α}
    {told : List (Nat × UInt64)}, Reached scenario s → s.course finish n = some (last, told) → Reached scenario last
  | 0, _, _, _, h, hc => by
    cases hc
    exact h
  | n + 1, s, last, told, h, hc => by
    obtain ⟨s', rest, hs, hrest, -⟩ := course_succ hc
    exact (h.step hs).course hrest

/-- The state after a number of events of a first run. -/
def afterEvents? (scenario : Scenario α) (start finish : Instant) (n : Nat) : Option (HomingSimulation α) := do
  let initial ← (of? scenario).toOption
  let begun ← (initial.begin start).toOption
  let (s, _) ← begun.course finish n
  return s

theorem reached_of_afterEvents? {scenario : Scenario α} {start finish : Instant} {n : Nat} {s : HomingSimulation α}
    (h : afterEvents? scenario start finish n = some s) : Reached scenario s := by
  unfold afterEvents? at h
  obtain ⟨initial, hi, h⟩ := Option.bind_eq_some_iff.1 h
  obtain ⟨begun, hb, h⟩ := Option.bind_eq_some_iff.1 h
  obtain ⟨⟨last, told⟩, hc, h⟩ := Option.bind_eq_some_iff.1 h
  cases h
  have of_toOption : ∀ {x : Except SimulationFailure (HomingSimulation α)} {y : HomingSimulation α},
      x.toOption = some y → x = .ok y := by
    intro x y hx
    cases x <;> cases hx
    rfl
  exact ((Reached.ready (of_toOption hi)).begun (of_toOption hb)).course hc

/-- Two controllers whose reports of a trigger reach the host at 0.12 s: that of the first one was sent when its
endstop closed, at 0.05 s, and that of the second one, closed at 0.04 s, with its next status. The first one
reports every `period`. -/
def sameInstant (period : ℚ) : Scenario ℚ :=
  ⟨.default, { TrsyncSettings.default with timeout := 1 },
    [{ ControllerScenario.named "mcu" with
        freq := 1000000, statusPeriod := some period, latency := 0.07, triggerTime := some 0.05 },
      { ControllerScenario.named "toolboard" with
        freq := 1000000, statusPeriod := some 0.11, latency := 0.01, triggerTime := some 0.04
        lostReports := some (0.03, 0.045) }]⟩

/-- The state in which the two reports are next. -/
def sameArrival : HomingSimulation ℚ := (afterEvents? (sameInstant 0.3) 0 500000000 5).get (by decide +kernel)

/-- Nothing else happens at that time: both reports are handed over, and the second controller wins. -/
theorem reports_together_undivided : ∃ e rest s', sameArrival.events.pending = e :: rest ∧
    sameArrival.step 500000000 = .ok (true, s') ∧
    (sameArrival.together e.time).map (fun f => f.event.isArrival) = [true, true] ∧
    (∃ posts answer, sameArrival.dispatch.batch (updatesOf (sameArrival.together e.time)) =
      (s'.dispatch, posts, answer)) ∧
    s'.dispatch.trigger.map (fun t => (t.endpoint, t.hostTime)) = some (1, 0.04) := by
  have hr : Reached (sameInstant 0.3) sameArrival := reached_of_afterEvents? (Option.some_get _).symm
  have hp := (List.cons_head_tail (l := sameArrival.events.pending) (by decide +kernel)).symm
  have hs : sameArrival.step 500000000 =
      .ok (true, ((sameArrival.step 500000000).toOption.get (by decide +kernel)).2) :=
    (ok_of_isSome (by decide +kernel)).trans (congrArg Except.ok (Prod.ext (by decide +kernel) rfl))
  obtain ⟨-, -, posts, answer, hbatch, -⟩ := reports_together timeOrder_of_exact hr hp (by decide +kernel) hs
  exact ⟨_, _, _, hp, hs, by decide +kernel, ⟨posts, answer, hbatch⟩, by decide +kernel⟩

/-- The state in which the two reports and a status of the first controller are next. -/
def dividedArrival : HomingSimulation ℚ := (afterEvents? (sameInstant 0.06) 0 500000000 6).get (by decide +kernel)

/-- The status was scheduled between the two reports. So the first report goes to the dispatch alone, and it
triggers, though the second one, of the same time, tells of an earlier trigger and would win if the two were
handed over together. -/
theorem not_reports_together : Reached (sameInstant 0.06) dividedArrival ∧ ∃ e f rest s',
    dividedArrival.events.pending = e :: rest ∧ e.event.arrival?.map Prod.fst = some 0 ∧
    dividedArrival.step 500000000 = .ok (true, s') ∧
    f ∈ rest ∧ f.time = e.time ∧
    f.event.arrival?.map (fun a => (a.1, a.2.canTrigger)) = some (1, false) ∧
    f ∉ dividedArrival.together e.time ∧ f ∈ s'.events.pending ∧
    s'.dispatch.trigger.map (fun t => (t.endpoint, t.hostTime)) = some (0, 0.05) ∧
    (dividedArrival.dispatch.batch (updatesOf [e, f])).1.trigger.map (fun t => (t.endpoint, t.hostTime)) =
      some (1, 0.04) := by
  have hp := (List.cons_head_tail (l := dividedArrival.events.pending) (by decide +kernel)).symm
  have hs : dividedArrival.step 500000000 =
      .ok (true, ((dividedArrival.step 500000000).toOption.get (by decide +kernel)).2) :=
    (ok_of_isSome (by decide +kernel)).trans (congrArg Except.ok (Prod.ext (by decide +kernel) rfl))
  exact ⟨reached_of_afterEvents? (Option.some_get _).symm, _,
    ⟨120000000, 9, .arrival 1 ⟨1, false, Reason.endstopHit, 40000⟩⟩, _, _, hp, by decide +kernel, hs,
    by decide +kernel, by decide +kernel, by decide +kernel, by decide +kernel, by decide +kernel,
    by decide +kernel, by decide +kernel⟩

end HomingSimulation

end PrinterMotion
