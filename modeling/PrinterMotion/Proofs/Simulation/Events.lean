/-
What an event does to a simulation. Reports of a controller are under way in the order in which they were
sent, for its messages all take the same time; new ones line up behind the others, and reports that arrive
are the foremost. Everything else leaves them alone: commands and the controllers' own events.
-/
import PrinterMotion.Proofs.Elementwise
import PrinterMotion.Proofs.Simulation.EventQueue
import PrinterMotion.Proofs.Trsync.Expected
import PrinterMotion.Simulation.Homing

namespace PrinterMotion

/-- What every step of a fold keeps, the fold keeps. -/
theorem foldlM_keeps {ε σ γ : Type} {P : σ → Prop} {f : σ → γ → Except ε σ}
    (hf : ∀ {s s' : σ} {a : γ}, P s → f s a = .ok s' → P s') : ∀ {as : List γ} {s s' : σ}, P s →
      as.foldlM f s = .ok s' → P s'
  | [], _, _, h, hs => by
    cases hs
    exact h
  | a :: as, s, s', h, hs => by
    rw [List.foldlM_cons] at hs
    obtain ⟨s₁, ha, hs⟩ := bind_eq_ok.1 hs
    exact foldlM_keeps hf (hf h ha) hs

theorem Instant.add?_eq_some {a b c : Instant} (h : Instant.add? a b = some c) : c = a + b := by
  unfold add? at h
  split at h
  · cases h; rfl
  · cases h

/-! ## Controllers -/

namespace SimulatedController

variable {α : Type}

/-- A controller later in the simulation: it is the same one, and if it had stopped, it has stopped as
before. -/
structure Becomes (c c' : SimulatedController α) : Prop where
  scenario : c'.scenario = c.scenario
  clock : c'.clock = c.clock
  latency : c'.latency = c.latency
  stopped : ∀ x, c.stopped = some x → c'.stopped = some x

theorem Becomes.refl (c : SimulatedController α) : c.Becomes c := ⟨rfl, rfl, rfl, fun _ h => h⟩

theorem Becomes.trans {a b c : SimulatedController α} (h : a.Becomes b) (h' : b.Becomes c) : a.Becomes c :=
  ⟨h'.scenario.trans h.scenario, h'.clock.trans h.clock, h'.latency.trans h.latency,
    fun x hx => h'.stopped x (h.stopped x hx)⟩

theorem Becomes.kept {c c' : SimulatedController α} (h : c.Becomes c') (hc : c.scenario.lostReports = none) :
    c'.scenario.lostReports = none := by rw [h.scenario, hc]

theorem Becomes.running {c c' : SimulatedController α} (h : c.Becomes c') (hc : c'.stopped = none) :
    c.stopped = none := by
  cases hs : c.stopped with
  | none => rfl
  | some x => rw [h.stopped x hs] at hc; cases hc

theorem becomes_stop (c : SimulatedController α) (reason : Reason) (clock : UInt64) (time : α) :
    c.Becomes (c.stop reason clock time) := by
  unfold stop
  split
  · exact .refl c
  · rename_i h
    exact ⟨rfl, rfl, rfl, fun x hx => by simp [hx] at h⟩

theorem stop_of_running {c : SimulatedController α} (h : c.stopped = none) (reason : Reason)
    (clock : UInt64) (time : α) : (c.stop reason clock time).stopped = some (reason, clock) := by
  simp [stop, h]

variable [Scalar α]

theorem becomes_watch (c : SimulatedController α) (time : α) : c.Becomes (c.watch time) := by
  unfold watch
  split
  · split
    · split
      · exact becomes_stop ..
      · exact .refl c
    · exact .refl c
  · exact .refl c

/-- The clock in a report at a host time. -/
def reading (c : SimulatedController α) (time : α) : UInt64 :=
  match c.stopped with
  | some (_, clock) => clock
  | none => c.clockAt time

end SimulatedController

theorem SimulatedController.reportAt_of_running {α : Type} [Scalar α] {c : SimulatedController α}
    (h : c.stopped = none) (oid : UInt32) (time : α) :
    c.reportAt oid time = .running oid (c.clockAt time) ∧ c.reading time = c.clockAt time := by
  simp [reportAt, reading, StatusReport.running, h]

/-! ## Reports under way -/

/-- The report that arrives, if it is one of the controller at a place. -/
def SimulationEvent.reportFrom? (place : Nat) : SimulationEvent → Option StatusReport
  | arrival controller report => if controller = place then some report else none
  | _ => none

/-- The reports of a controller among events, with the times at which they arrive. -/
def reportsFrom (place : Nat) (pending : List (Scheduled SimulationEvent)) : List (Instant × StatusReport) :=
  pending.filterMap fun e => (e.event.reportFrom? place).map fun report => (e.time, report)

theorem reportsFrom_append (place : Nat) (as bs : List (Scheduled SimulationEvent)) :
    reportsFrom place (as ++ bs) = reportsFrom place as ++ reportsFrom place bs :=
  List.filterMap_append

namespace HomingSimulation

variable {α : Type}

/-- The reports of a controller that are under way, with the times at which they arrive. -/
def underway (s : HomingSimulation α) (place : Nat) : List (Instant × StatusReport) :=
  reportsFrom place s.events.pending

/-- Nothing has changed but the log and what is pending besides reports. -/
structure Undisturbed (s s' : HomingSimulation α) : Prop where
  dispatch : s'.dispatch = s.dispatch
  controllers : s'.controllers = s.controllers
  clock : s'.clock = s.clock
  lapse : s'.lapse = s.lapse
  underway : ∀ place, s'.underway place = s.underway place
  sorted : EventQueue.Sorted s.events.pending → EventQueue.Sorted s'.events.pending

theorem Undisturbed.refl (s : HomingSimulation α) : s.Undisturbed s :=
  ⟨rfl, rfl, rfl, rfl, fun _ => rfl, fun h => h⟩

theorem Undisturbed.trans {a b c : HomingSimulation α} (h : a.Undisturbed b) (h' : b.Undisturbed c) :
    a.Undisturbed c :=
  ⟨h'.dispatch.trans h.dispatch, h'.controllers.trans h.controllers, h'.clock.trans h.clock,
    h'.lapse.trans h.lapse, fun place => (h'.underway place).trans (h.underway place),
    fun hs => h'.sorted (h.sorted hs)⟩

theorem undisturbed_schedule (s : HomingSimulation α) (time : Instant) {event : SimulationEvent}
    (h : event.isArrival = false) : s.Undisturbed (s.schedule time event) := by
  refine ⟨rfl, rfl, rfl, rfl, fun place => EventQueue.filterMap_insert_none ?_ _,
    fun hs => EventQueue.sorted_insert _ hs⟩
  cases event <;> first | rfl | cases h

theorem inTime_eq_ok {t : Option Instant} {time : Instant} : inTime t = .ok time ↔ t = some time := by
  cases t <;> simp [inTime]

/-- The record of a command to a controller that is sent at a time. -/
def commandRecord (c : SimulatedController α) (time : α) (command : Command) : MessageRecord α :=
  let kind := MessageKind.ofCommand command
  ⟨time, c.scenario.name, kind, command.reqClock,
    match kind with
    | .trigger => command.fields.getD 2 0
    | _ => 0⟩

variable [Scalar α]

/-- A command goes into the log as it is sent, and arrives at its controller a latency later. -/
theorem deliver_eq_ok {s s' : HomingSimulation α} {p : Post} (h : s.deliver p = .ok s') :
    s.controllers[p.endpoint]? = none ∧ s' = s ∨ ∃ c, s.controllers[p.endpoint]? = some c ∧
      s' = ({ s with log := commandRecord c s.seconds p.command :: s.log } : HomingSimulation α).schedule
        (s.clock.now + c.latency) (.order p.endpoint p.command) := by
  unfold deliver at h
  split at h
  · rename_i hnone
    cases h
    exact .inl ⟨hnone, rfl⟩
  · rename_i c hc
    obtain ⟨time, ht, h⟩ := bind_eq_ok.1 h
    cases h
    rw [Instant.add?_eq_some (inTime_eq_ok.1 ht)]
    exact .inr ⟨c, hc, rfl⟩

theorem deliver_undisturbed {s s' : HomingSimulation α} {p : Post} (h : s.deliver p = .ok s') :
    s.Undisturbed s' := by
  rcases deliver_eq_ok h with ⟨-, rfl⟩ | ⟨c, -, rfl⟩
  · exact .refl s'
  · exact Undisturbed.trans (b := { s with log := _ :: s.log }) ⟨rfl, rfl, rfl, rfl, fun _ => rfl, fun hs => hs⟩
      (undisturbed_schedule _ _ rfl)

omit [Scalar α] in
theorem foldlM_undisturbed {γ : Type} {f : HomingSimulation α → γ → Except SimulationFailure (HomingSimulation α)}
    (hf : ∀ {s s' : HomingSimulation α} {a : γ}, f s a = .ok s' → s.Undisturbed s') : ∀ {as : List γ}
    {s s' : HomingSimulation α}, as.foldlM f s = .ok s' → s.Undisturbed s'
  | [], s, _, h => by
    cases h
    exact .refl s
  | a :: rest, s, s', h => by
    rw [List.foldlM_cons] at h
    obtain ⟨s₁, ha, hrest⟩ := bind_eq_ok.1 h
    exact (hf ha).trans (foldlM_undisturbed hf hrest)

theorem deliverAll_undisturbed {s s' : HomingSimulation α} {posts : List Post} (h : s.deliverAll posts = .ok s') :
    s.Undisturbed s' := foldlM_undisturbed deliver_undisturbed h

/-! ## How a run begins and ends -/

section Starting

variable (P : HomingSimulation α → Prop) {start : Instant} {s s' : HomingSimulation α}
  (hP : ∀ {s : HomingSimulation α} (time : Instant) (place : Nat), P s →
    P (s.schedule time (.sample place)) ∧ P (s.schedule time (.endstop place)))

include hP

/-- A controller is started with its first report, and maybe the time at which its endstop closes. -/
theorem scheduleController_keeps {entry : SimulatedController α × Nat} (h : P s)
    (hs : s.scheduleController start entry = .ok s') : P s' := by
  unfold scheduleController at hs
  obtain ⟨first, -, hs⟩ := bind_eq_ok.1 hs
  have hsample := (hP first entry.2 h).1
  dsimp only at hs
  split at hs
  · cases hs
    exact hsample
  · obtain ⟨time, -, hs⟩ := bind_eq_ok.1 hs
    cases hs
    exact (hP time entry.2 hsample).2

/-- So are all controllers, one after the other. -/
theorem scheduleAll_keeps {entries : List (SimulatedController α × Nat)} (h : P s)
    (hs : entries.foldlM (scheduleController start) s = .ok s') : P s' :=
  foldlM_keeps (scheduleController_keeps P hP) h hs

end Starting

/-- A simulation begins when the dispatch starts: its commands go out, and then the controllers are started. -/
theorem begin_eq_ok {s s' : HomingSimulation α} {start : Instant} (h : s.begin start = .ok s') :
    (s.dispatch.start s.scenario.simulation.reason).2.2 = .ok () ∧ ∃ posted : HomingSimulation α,
      ({ s with
        clock := s.clock.advance start
        dispatch := (s.dispatch.start s.scenario.simulation.reason).1 } : HomingSimulation α).deliverAll
          (s.dispatch.start s.scenario.simulation.reason).2.1 = .ok posted ∧
      posted.controllers.zipIdx.foldlM (scheduleController start) posted = .ok s' := by
  unfold HomingSimulation.begin at h
  dsimp only at h
  obtain ⟨_, hstarted, h⟩ := bind_eq_ok.1 h
  refine ⟨?_, bind_eq_ok.1 h⟩
  cases hr : (s.dispatch.start s.scenario.simulation.reason).2.2 with
  | ok _ => rfl
  | error e =>
    rw [hr] at hstarted
    cases hstarted

/-- How a run goes that has an outcome: it begins, events happen until the window ends, the host stops the
dispatch, and the commands arrive that are still under way. -/
inductive Ran (s : HomingSimulation α) (limit : Nat) : HomingSimulation α → HomingReport α → Prop where
  | through {start finish : Instant} {begun ended stopped : HomingSimulation α} {stoppedByHost : Bool}
      (hstart : inTime (Instant.ofSeconds? s.scenario.simulation.startTime) = .ok start)
      (hfinish : inTime (Instant.ofSeconds? s.scenario.simulation.duration) = .ok finish)
      (hbegin : s.begin start = .ok begun) (hsteps : steps finish limit begun = .ok ended)
      (hstopped : settled ended.dispatch.stop.2.2 = .ok stoppedByHost)
      (hdeliver : ({ ended with dispatch := ended.dispatch.stop.1 } : HomingSimulation α).deliverAll
        ended.dispatch.stop.2.1 = .ok stopped) :
      Ran s limit stopped.settle (stopped.settle.report stoppedByHost)

theorem ran_of_runFor {s last : HomingSimulation α} {limit : Nat} {report : HomingReport α}
    (h : s.runFor limit = .ok (last, report)) : s.Ran limit last report := by
  unfold runFor at h
  obtain ⟨start, hstart, h⟩ := bind_eq_ok.1 h
  obtain ⟨finish, hfinish, h⟩ := bind_eq_ok.1 h
  obtain ⟨begun, hbegin, h⟩ := bind_eq_ok.1 h
  obtain ⟨ended, hsteps, h⟩ := bind_eq_ok.1 h
  dsimp only at h
  obtain ⟨stoppedByHost, hstopped, h⟩ := bind_eq_ok.1 h
  obtain ⟨stopped, hdeliver, h⟩ := bind_eq_ok.1 h
  cases h
  exact .through hstart hfinish hbegin hsteps hstopped hdeliver

/-! ## Sending a report -/

theorem sendReport_eq_ok {s s' : HomingSimulation α} {place : Nat} {c : SimulatedController α}
    (h : s.sendReport place c = .ok s') :
    c.scenario.losesReportAt s.seconds = true ∧ s' = s.setController place c ∨
      s' = (s.setController place { c with reportsSent := c.reportsSent + 1 }).schedule
        (s.clock.now + c.latency) (.arrival place (c.reportAt (UInt32.ofNat place) s.seconds)) := by
  unfold sendReport at h
  obtain ⟨time, ht, h⟩ := bind_eq_ok.1 h
  have htime := Instant.add?_eq_some (inTime_eq_ok.1 ht)
  split at h
  · rename_i hlost
    cases h
    exact .inl ⟨hlost, rfl⟩
  · cases h
    exact .inr (by rw [htime])

omit [Scalar α] in
theorem getElem?_setController {s : HomingSimulation α} {place q : Nat} {c c₀ cr : SimulatedController α}
    (hc : s.controllers[place]? = some c) (hq : s.controllers[q]? = some c₀) (hb : c₀.Becomes cr) :
    ∃ c', c.Becomes c' ∧ (s.setController q cr).controllers[place]? = some c' ∧ (q = place → c' = cr) := by
  simp only [setController, List.getElem?_set]
  by_cases hp : q = place
  · subst hp
    have hlt := (List.getElem?_eq_some_iff.1 hq).1
    rw [hc] at hq
    cases hq
    exact ⟨cr, hb, by rw [if_pos rfl, if_pos hlt], fun _ => rfl⟩
  · exact ⟨c, .refl c, by rw [if_neg hp, hc], fun h => absurd h hp⟩

/-! ## Reports in line -/

/-- The controller at a place, and its reports under way: none of them arrives later than a report would
that is sent now. -/
structure InLine (s : HomingSimulation α) (place : Nat) (c : SimulatedController α) : Prop where
  controller : s.controllers[place]? = some c
  sorted : EventQueue.Sorted s.events.pending
  due : ∀ x ∈ s.underway place, x.1 ≤ s.clock.now + c.latency

/-- The report that a controller sends now, with the time at which it arrives. -/
def reportNow (s : HomingSimulation α) (place : Nat) (c : SimulatedController α) : Instant × StatusReport :=
  (s.clock.now + c.latency, c.reportAt (UInt32.ofNat place) s.seconds)

/-- What a controller has said by the next state, while the dispatch hears nothing. -/
structure Speaks (s : HomingSimulation α) (place : Nat) (c : SimulatedController α)
    (news : List (Instant × StatusReport)) (s' : HomingSimulation α) (c' : SimulatedController α) : Prop where
  line : s'.InLine place c'
  becomes : c.Becomes c'
  clock : s'.clock = s.clock
  dispatch : s'.dispatch = s.dispatch
  lapse : s'.lapse = s.lapse
  underway : s'.underway place = s.underway place ++ news

omit [Scalar α] in
theorem Speaks.trans {s s₁ s' : HomingSimulation α} {place : Nat} {c c₁ c' : SimulatedController α}
    {xs ys : List (Instant × StatusReport)} (h : s.Speaks place c xs s₁ c₁) (h' : s₁.Speaks place c₁ ys s' c') :
    s.Speaks place c (xs ++ ys) s' c' :=
  ⟨h'.line, h.becomes.trans h'.becomes, h'.clock.trans h.clock, h'.dispatch.trans h.dispatch,
    h'.lapse.trans h.lapse, by rw [h'.underway, h.underway, List.append_assoc]⟩

omit [Scalar α] in
theorem Undisturbed.speaks {s s' : HomingSimulation α} {place : Nat} {c : SimulatedController α}
    (hu : s.Undisturbed s') (h : s.InLine place c) : s.Speaks place c [] s' c := by
  refine ⟨⟨hu.controllers ▸ h.controller, hu.sorted h.sorted, ?_⟩, .refl c, hu.clock, hu.dispatch, hu.lapse, ?_⟩
  · rw [hu.underway, hu.clock]
    exact h.due
  · rw [hu.underway, List.append_nil]

omit [Scalar α] in
theorem InLine.setController {s : HomingSimulation α} {place q : Nat} {c c₀ cr : SimulatedController α}
    (h : s.InLine place c) (hq : s.controllers[q]? = some c₀) (hb : c₀.Becomes cr) :
    ∃ c', s.Speaks place c [] (s.setController q cr) c' ∧ (q = place → c' = cr) := by
  obtain ⟨c', hbecomes, hget, hsame⟩ := getElem?_setController h.controller hq hb
  refine ⟨c', ⟨⟨hget, h.sorted, ?_⟩, hbecomes, rfl, rfl, rfl, (List.append_nil _).symm⟩, hsame⟩
  rw [hbecomes.latency]
  exact h.due

theorem InLine.speaks_schedule {s : HomingSimulation α} {place : Nat} {c : SimulatedController α}
    (h : s.InLine place c) : s.Speaks place c [s.reportNow place c] (s.schedule (s.clock.now + c.latency)
      (.arrival place (c.reportAt (UInt32.ofNat place) s.seconds))) c := by
  have happend : (s.schedule (s.clock.now + c.latency)
      (.arrival place (c.reportAt (UInt32.ofNat place) s.seconds))).underway place =
        s.underway place ++ [s.reportNow place c] := by
    refine EventQueue.filterMap_insert_some ?_ h.sorted fun e he hsome => ?_
    · simp [SimulationEvent.reportFrom?, reportNow]
    · obtain ⟨x, hx⟩ := Option.isSome_iff_exists.1 hsome
      have hdue := h.due x (List.mem_filterMap.2 ⟨e, he, hx⟩)
      obtain ⟨r, -, rfl⟩ := Option.map_eq_some_iff.1 hx
      exact hdue
  refine ⟨⟨h.controller, EventQueue.sorted_insert _ h.sorted, ?_⟩, .refl c, rfl, rfl, rfl, happend⟩
  intro x hx
  rw [happend] at hx
  rcases List.mem_append.1 hx with hx | hx
  · exact h.due x hx
  · rw [List.mem_singleton.1 hx]
    exact le_rfl

omit [Scalar α] in
theorem InLine.speaks_schedule_other {s : HomingSimulation α} {place q : Nat} {c : SimulatedController α}
    (h : s.InLine place c) (hq : q ≠ place) (time : Instant) (r : StatusReport) :
    s.Speaks place c [] (s.schedule time (.arrival q r)) c := by
  have hsame : (s.schedule time (.arrival q r)).underway place = s.underway place :=
    EventQueue.filterMap_insert_none (by simp [SimulationEvent.reportFrom?, hq]) _
  refine ⟨⟨h.controller, EventQueue.sorted_insert _ h.sorted, ?_⟩, .refl c, rfl, rfl, rfl, ?_⟩
  · rw [hsame]
    exact h.due
  · rw [hsame, List.append_nil]

/-- A report of the controller lines up behind its others; a report of another one leaves them alone. -/
theorem InLine.sendReport {s s' : HomingSimulation α} {place q : Nat} {c c₀ cr : SimulatedController α}
    (h : s.InLine place c) (hkept : c.scenario.lostReports = none) (hq : s.controllers[q]? = some c₀)
    (hb : c₀.Becomes cr) (hs : s.sendReport q cr = .ok s') :
    ∃ c', s.Speaks place c (if q = place then [s'.reportNow place c'] else []) s' c' ∧
      (q = place → c'.stopped = cr.stopped) := by
  rcases sendReport_eq_ok hs with ⟨hlost, rfl⟩ | hs'
  · obtain ⟨c', hspeaks, hsame⟩ := h.setController hq hb
    -- a report is lost only where the scenario says so, which it does not for this controller
    have hp : q ≠ place := by
      rintro rfl
      obtain rfl := hsame rfl
      simp [ControllerScenario.losesReportAt, hspeaks.becomes.scenario, hkept] at hlost
    exact ⟨c', by rwa [if_neg hp], fun he => absurd he hp⟩
  · have hb' : c₀.Becomes { cr with reportsSent := cr.reportsSent + 1 } :=
      hb.trans ⟨rfl, rfl, rfl, fun _ hx => hx⟩
    obtain ⟨c', hspeaks, hsame⟩ := h.setController hq hb'
    refine ⟨c', ?_, fun he => by rw [hsame he]⟩
    rw [hs']
    by_cases hp : q = place
    · subst hp
      obtain rfl := hsame rfl
      rw [if_pos rfl]
      exact hspeaks.trans hspeaks.line.speaks_schedule
    · rw [if_neg hp]
      exact hspeaks.trans (hspeaks.line.speaks_schedule_other hp _ _)

omit [Scalar α] in
theorem InLine.speaks_nothing {s : HomingSimulation α} {place : Nat} {c : SimulatedController α}
    (h : s.InLine place c) : s.Speaks place c [] s c := (Undisturbed.refl s).speaks h

/-- A controller that obeys changes itself, and nothing else. -/
theorem obey_frame (s : HomingSimulation α) (place : Nat) (command : Command) :
    ∃ controllers, s.obey place command = { s with controllers } := by
  unfold HomingSimulation.obey
  split
  · exact ⟨_, rfl⟩
  · split <;> exact ⟨_, rfl⟩

theorem InLine.obey {s : HomingSimulation α} {place : Nat} {c : SimulatedController α} (h : s.InLine place c)
    (q : Nat) (command : Command) : ∃ c', s.Speaks place c [] (s.obey q command) c' := by
  unfold HomingSimulation.obey
  split
  · exact ⟨c, h.speaks_nothing⟩
  · rename_i c₀ hq
    split
    · have hb : c₀.Becomes { c₀ with expire := some command.reqClock } := ⟨rfl, rfl, rfl, fun _ hx => hx⟩
      obtain ⟨c', hspeaks, -⟩ := h.setController hq hb
      exact ⟨c', hspeaks⟩
    · obtain ⟨c', hspeaks, -⟩ := h.setController hq (c₀.becomes_stop _ _ _)
      exact ⟨c', hspeaks⟩

/-! ## Events -/

end HomingSimulation

/-- The controller that an event makes report. -/
def SimulationEvent.reporter? : SimulationEvent → Option Nat
  | sample controller | endstop controller => some controller
  | _ => none

namespace HomingSimulation

variable {α : Type} [Scalar α]

/-- A controller's own event makes it report. -/
theorem InLine.happen_report {s s' : HomingSimulation α} {place q : Nat} {c : SimulatedController α}
    {time : Instant} {event : SimulationEvent} (h : s.InLine place c) (hkept : c.scenario.lostReports = none)
    (hr : event.reporter? = some q) (hh : s.happen time event = .ok s') :
    ∃ c', s.Speaks place c (if q = place then [s'.reportNow place c'] else []) s' c' ∧
      (event = .endstop place → c.stopped = none →
        c'.stopped = some (Reason.endstopHit, c.clockAt s.seconds)) := by
  have absent : s.controllers[q]? = none → q ≠ place := by
    rintro hq rfl
    rw [h.controller] at hq
    cases hq
  cases event with
  | arrival q' r => cases hr
  | order q' command => cases hr
  | sample q' =>
    cases hr
    simp only [happen] at hh
    split at hh
    · rename_i hq
      cases hh
      exact ⟨c, by rw [if_neg (absent hq)]; exact h.speaks_nothing, fun he => by cases he⟩
    · rename_i c₀ hq
      obtain ⟨s₁, hs, hh⟩ := bind_eq_ok.1 hh
      obtain ⟨c', hspeaks, -⟩ := h.sendReport hkept hq (c₀.becomes_watch s.seconds) hs
      have hu : s₁.Undisturbed s' := by
        split at hh
        · obtain ⟨next, -, hh⟩ := bind_eq_ok.1 hh
          cases hh
          exact undisturbed_schedule s₁ next rfl
        · cases hh
          exact .refl _
      refine ⟨c', ?_, fun he => by cases he⟩
      have hnow : s'.reportNow place c' = s₁.reportNow place c' := by
        simp only [reportNow, seconds, hu.clock]
      rw [hnow]
      have := hspeaks.trans (hu.speaks hspeaks.line)
      rwa [List.append_nil] at this
  | endstop q' =>
    cases hr
    simp only [happen] at hh
    split at hh
    · rename_i hq
      cases hh
      exact ⟨c, by rw [if_neg (absent hq)]; exact h.speaks_nothing, fun he => absurd (by cases he; rfl) (absent hq)⟩
    · rename_i c₀ hq
      obtain ⟨c', hspeaks, hstopped⟩ := h.sendReport hkept hq (c₀.becomes_stop _ _ _) hh
      refine ⟨c', hspeaks, fun he hrun => ?_⟩
      cases he
      rw [h.controller] at hq
      cases hq
      rw [hstopped rfl, SimulatedController.stop_of_running hrun]

/-! ## Batches of reports -/

/-- The dispatch has handled reports: all of them found their outcomes, or a passed expire clock is
noted. -/
structure Handles (s : HomingSimulation α) (us : List StatusUpdate) (s' : HomingSimulation α) : Prop where
  dispatch : s'.dispatch = (s.dispatch.batch us).1
  answer : (∃ outcomes, (s.dispatch.batch us).2.2 = .ok outcomes) ∧ s'.lapse = s.lapse ∨
    (∃ oid clock expire, (s.dispatch.batch us).2.2 = .error (.lapsed oid clock expire)) ∧
      s'.lapse.isSome = true

/-- The updates that reports make for the dispatch. -/
def updates (arrivals : List (Nat × StatusReport)) : List StatusUpdate :=
  arrivals.map fun (place, report) => ⟨some place, report⟩

/-- The state in which the dispatch has handled reports, and its commands are still to be sent. -/
def heard (s : HomingSimulation α) (arrivals : List (Nat × StatusReport)) (extensions : Nat)
    (lapse : Option DispatchError) : HomingSimulation α :=
  { s with
    log := (arrivals.map s.arrivalRecord).reverse ++ s.log
    dispatch := (s.dispatch.batch (updates arrivals)).1
    extensions, lapse }

/-- The dispatch answers reports with commands. A passed expire clock is noted, and all else that is wrong with
reports ends the run. -/
theorem receive_eq_ok {s s' : HomingSimulation α} {arrivals : List (Nat × StatusReport)}
    (h : s.receive arrivals = .ok s') : ∃ extensions lapse,
      s.Handles (updates arrivals) (s.heard arrivals extensions lapse) ∧
      (s.heard arrivals extensions lapse).deliverAll (s.dispatch.batch (updates arrivals)).2.1 = .ok s' := by
  unfold receive at h
  dsimp only at h
  split at h
  · rename_i outcomes ho
    exact ⟨_, _, ⟨rfl, .inl ⟨⟨outcomes, ho⟩, rfl⟩⟩, h⟩
  · rename_i oid clock expire ho
    exact ⟨_, _, ⟨rfl, .inr ⟨⟨oid, clock, expire, ho⟩, rfl⟩⟩, h⟩
  · cases h

theorem receive_handles {s s' : HomingSimulation α} {arrivals : List (Nat × StatusReport)}
    (h : s.receive arrivals = .ok s') : s.Handles (updates arrivals) s' ∧ s'.controllers = s.controllers ∧
      s'.clock = s.clock ∧ (∀ place, s'.underway place = s.underway place) ∧
      (EventQueue.Sorted s.events.pending → EventQueue.Sorted s'.events.pending) := by
  obtain ⟨extensions, lapse, hhandles, hdeliver⟩ := receive_eq_ok h
  have hu := deliverAll_undisturbed hdeliver
  refine ⟨⟨hu.dispatch, ?_⟩, hu.controllers, hu.clock, hu.underway, hu.sorted⟩
  rw [hu.lapse]
  exact hhandles.answer

theorem batch_nil {d : Dispatch α} (hb : d.broken = false) : d.batch [] = (d, [], .ok []) := by
  simp [Dispatch.batch, hb, Dispatch.noteAll, Dispatch.trips, Dispatch.lapses, firstBy, Dispatch.extendAll]

theorem Speaks.handles {s s' : HomingSimulation α} {place : Nat} {c c' : SimulatedController α}
    {news : List (Instant × StatusReport)} (h : s.Speaks place c news s' c') (hb : s.dispatch.broken = false) :
    s.Handles [] s' :=
  ⟨by rw [batch_nil hb]; exact h.dispatch, .inl ⟨⟨[], by rw [batch_nil hb]⟩, h.lapse⟩⟩

/-! ## Steps -/

/-- The state in which an event happens that `rest` comes after. -/
def ready (s : HomingSimulation α) (e : Scheduled SimulationEvent) (rest : List (Scheduled SimulationEvent)) :
    HomingSimulation α :=
  { s with events := { s.events with pending := rest }, clock := s.clock.advance e.time }

/-- A step takes the next event, unless that comes too late. -/
theorem step_eq {s : HomingSimulation α} {e : Scheduled SimulationEvent}
    {rest : List (Scheduled SimulationEvent)} (h : s.events.pending = e :: rest) (finish : Instant) :
    s.step finish = if finish < e.time then .ok (false, { s with events := { s.events with pending := rest } })
      else match (s.ready e rest).happen e.time e.event with
        | .ok s => .ok (true, s)
        | .error failure => .error failure := by
  simp only [step, EventQueue.pop, h]
  rfl

theorem step_eq_true {s s' : HomingSimulation α} {finish : Instant} (h : s.step finish = .ok (true, s')) :
    ∃ e rest, s.events.pending = e :: rest ∧ e.time ≤ finish ∧
      (s.ready e rest).happen e.time e.event = .ok s' := by
  cases hp : s.events.pending with
  | nil => simp [step, EventQueue.pop, hp] at h
  | cons e rest =>
    rw [step_eq hp] at h
    split at h
    · cases h
    · rename_i hle
      refine ⟨e, rest, rfl, Nat.le_of_not_lt hle, ?_⟩
      split at h
      · rename_i s'' hh
        cases h
        exact hh
      · cases h

/-- The simulation ends with nothing pending up to `finish`. -/
theorem step_eq_false {s s' : HomingSimulation α} {finish : Instant} (h : s.step finish = .ok (false, s')) :
    (∀ e ∈ s.events.pending.head?, finish < e.time) ∧ s'.dispatch = s.dispatch ∧ s'.lapse = s.lapse := by
  cases hp : s.events.pending with
  | nil =>
    simp only [step, EventQueue.pop, hp] at h
    cases h
    exact ⟨(fun e he => by cases he), rfl, rfl⟩
  | cons e rest =>
    rw [step_eq hp] at h
    split at h
    · rename_i hlate
      cases h
      exact ⟨(fun e' he => by cases he; exact hlate), rfl, rfl⟩
    · split at h <;> cases h

/-- The controller that the next event makes report. -/
def reporter? (s : HomingSimulation α) : Option Nat :=
  s.events.pending.head?.bind fun e => e.event.reporter?

/-- The reports that a controller sends in the next event, after which the simulation is in the state
`s'`. -/
def news (s : HomingSimulation α) (place : Nat) (s' : HomingSimulation α) (c' : SimulatedController α) :
    List (Instant × StatusReport) :=
  if s.reporter? = some place then [s'.reportNow place c'] else []

/-- What a step does to the reports of the controller at a place: the foremost of those under way reach the
dispatch with the reports `us`, and one that it sends lines up behind the rest. -/
structure Flows (s : HomingSimulation α) (place : Nat) (c : SimulatedController α) (us : List StatusUpdate)
    (s' : HomingSimulation α) (c' : SimulatedController α) : Prop where
  line : s'.InLine place c'
  becomes : c.Becomes c'
  clock : s.clock.now ≤ s'.clock.now
  handles : s.Handles us s'
  reports : ∃ taken, Dispatch.reportsTo place us = taken.map Prod.snd ∧
    s.underway place ++ s.news place s' c' = taken ++ s'.underway place

theorem reportsTo_arrivals (place : Nat) (events : List (Scheduled SimulationEvent)) :
    Dispatch.reportsTo place ((events.filterMap fun e => e.event.arrival?).map fun (q, r) => ⟨some q, r⟩) =
      (reportsFrom place events).map Prod.snd := by
  rw [Dispatch.reportsTo, reportsFrom, List.filterMap_map, List.filterMap_filterMap, List.map_filterMap]
  refine List.filterMap_congr fun e _ => ?_
  cases e.event with
  | arrival q r => by_cases hq : q = place <;> simp [hq, SimulationEvent.arrival?, SimulationEvent.reportFrom?]
  | _ => rfl

omit [Scalar α] in
theorem InLine.ready {s : HomingSimulation α} {place : Nat} {c : SimulatedController α}
    {e : Scheduled SimulationEvent} {rest : List (Scheduled SimulationEvent)} (h : s.InLine place c)
    (hp : s.events.pending = e :: rest) : (s.ready e rest).InLine place c := by
  have hsorted := h.sorted
  rw [hp] at hsorted
  refine ⟨h.controller, (List.pairwise_cons.1 hsorted).2, fun x hx => ?_⟩
  have hmem : x ∈ s.underway place := by
    obtain ⟨f, hf, hx⟩ := List.mem_filterMap.1 hx
    exact List.mem_filterMap.2 ⟨f, by rw [hp]; exact List.mem_cons_of_mem _ hf, hx⟩
  exact (h.due x hmem).trans (Nat.add_le_add_right (SimulationClock.le_advance _ _) _)

/-- The reports that arrive together are the foremost ones under way. -/
theorem InLine.flows_arrival {s s' : HomingSimulation α} {place q : Nat} {c : SimulatedController α}
    {e : Scheduled SimulationEvent} {rest : List (Scheduled SimulationEvent)} {r : StatusReport}
    (h : s.InLine place c) (hp : s.events.pending = e :: rest) (he : e.event = .arrival q r)
    (hh : (s.ready e rest).happen e.time (.arrival q r) = .ok s') : ∃ us, s.Flows place c us s' c := by
  -- which events arrive together does not matter here, only that they are the first ones of the queue
  obtain ⟨together, htogether⟩ : ∃ accept : Scheduled SimulationEvent → Bool,
    accept = fun f => f.time == e.time && f.event.isArrival := ⟨_, rfl⟩
  simp only [happen, EventQueue.popWhile, ← htogether] at hh
  obtain ⟨hhandles, hcontrollers, hnow, hunder, hsorted⟩ := receive_handles hh
  have hready := h.ready hp
  have hclock : s.clock.now ≤ s'.clock.now := by
    rw [hnow]
    exact SimulationClock.le_advance _ _
  have hsplit : s.underway place = reportsFrom place (e :: rest.takeWhile together) ++ s'.underway place := by
    have happend := reportsFrom_append place (e :: rest.takeWhile together) (rest.dropWhile together)
    rw [List.cons_append, List.takeWhile_append_dropWhile, ← hp] at happend
    rw [hunder]
    exact happend
  refine ⟨_, ⟨hcontrollers ▸ hready.controller, ?_, fun x hx => ?_⟩, .refl c, hclock,
    ⟨hhandles.dispatch, hhandles.answer⟩, reportsFrom place (e :: rest.takeWhile together), ?_, ?_⟩
  · exact hsorted (hready.sorted.sublist (List.dropWhile_sublist _))
  · have hdue := h.due x (by rw [hsplit]; exact List.mem_append_right _ hx)
    exact hdue.trans (Nat.add_le_add_right hclock _)
  · rw [← reportsTo_arrivals, List.filterMap_cons_some (by rw [he]; rfl)]
    rfl
  · have hnone : s.news place s' c = [] := by simp [news, reporter?, hp, he, SimulationEvent.reporter?]
    rw [hnone, List.append_nil]
    exact hsplit

theorem InLine.flows {s s' : HomingSimulation α} {place : Nat} {c : SimulatedController α} {finish : Instant}
    (h : s.InLine place c) (hkept : c.scenario.lostReports = none) (hb : s.dispatch.broken = false)
    (hs : s.step finish = .ok (true, s')) : ∃ us c', s.Flows place c us s' c' := by
  obtain ⟨e, rest, hp, -, hh⟩ := step_eq_true hs
  have hready := h.ready hp
  have hhead : s.reporter? = e.event.reporter? := by simp [reporter?, hp]
  -- an event that is no arrival takes nothing from the queue but itself
  have hspoken : ∀ c', e.event.isArrival = false →
      (s.ready e rest).Speaks place c (s.news place s' c') s' c' → ∃ us c', s.Flows place c us s' c' := by
    intro c' ha hspeaks
    have hnone : e.event.reportFrom? place = none := by
      cases he : e.event <;> first | rfl | (rw [he] at ha; cases ha)
    have hstill : s.underway place = (s.ready e rest).underway place := by
      simp [underway, reportsFrom, hp, HomingSimulation.ready, hnone]
    have hhandles := hspeaks.handles hb
    refine ⟨[], c', hspeaks.line, hspeaks.becomes, ?_, ⟨hhandles.dispatch, hhandles.answer⟩, [], rfl, ?_⟩
    · rw [hspeaks.clock]
      exact SimulationClock.le_advance _ _
    · rw [hspeaks.underway, hstill]
      rfl
  cases he : e.event with
  | sample q =>
    obtain ⟨c', hspeaks, -⟩ := hready.happen_report hkept (by rw [he]; rfl) hh
    exact hspoken c' (by rw [he]; rfl) (by simpa [news, hhead, he, SimulationEvent.reporter?] using hspeaks)
  | endstop q =>
    obtain ⟨c', hspeaks, -⟩ := hready.happen_report hkept (by rw [he]; rfl) hh
    exact hspoken c' (by rw [he]; rfl) (by simpa [news, hhead, he, SimulationEvent.reporter?] using hspeaks)
  | order q command =>
    rw [he] at hh
    cases hh
    obtain ⟨c', hspeaks⟩ := hready.obey q command
    exact hspoken c' (by rw [he]; rfl) (by simpa [news, hhead, he, SimulationEvent.reporter?] using hspeaks)
  | arrival q r =>
    rw [he] at hh
    obtain ⟨us, hflows⟩ := h.flows_arrival hp he hh
    exact ⟨us, c, hflows⟩

end HomingSimulation

end PrinterMotion
