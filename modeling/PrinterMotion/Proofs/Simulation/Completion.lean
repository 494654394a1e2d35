/-
Simulations that run to their end. A scenario that is accepted can be set up, begun and run, and has an
outcome after a number of events that depends on the scenario alone, where its times come before the end of
time, the counters of its controllers hold the clocks that the host goes by, and controllers wait between
their reports. None of that is checked: a start before time zero leaves no room for the window of a move, a
time beyond the end of time ends the simulation without an outcome, and a default time between reports that
comes to nothing has a controller report for ever.
-/
import PrinterMotion.Proofs.Simulation.Outcome
import PrinterMotion.Proofs.Simulation.Pace
import PrinterMotion.Proofs.Trsync.Ending
import PrinterMotion.Proofs.Trsync.Window

namespace PrinterMotion

variable {α : Type} [Scalar α]

/-! ## Scenarios with room -/

namespace ControllerScenario

/-- The most that a controller reads up to a point in time. -/
def clockBound (c : ControllerScenario α) (t : Instant) : Nat :=
  (SimulatedController.clockOf c).refClock.toNat + (ticksAt c.freq t).toNat

/-- There is room for a controller of a scenario that starts at `start` and has events up to `horizon`: it waits
between reports, all it does comes before the end of time, and its counter holds all clocks that the host
goes by. The clock of the start is not far from what the controller reads then. -/
structure Fits (c : ControllerScenario α) (scenario : Scenario α) (start horizon : Instant) : Prop where
  period : ∃ p ∈ Instant.ofSeconds? (c.period scenario.trsync scenario.controllers.length),
    0 < p ∧ horizon + p < Instant.limit
  latency : ∃ l ∈ Instant.ofSeconds? c.latency, horizon + l < Instant.limit
  triggerTime : ∀ t ∈ c.triggerTime, (Instant.ofSeconds? t).isSome
  window : ∃ w ∈ scenario.trsync.window? scenario.controllers.length scenario.simulation.startTime
      (SimulatedController.clockOf c), w.lastStatus.toNat ≤ c.clockBound horizon ∧
    w.lastStatus.toNat < ((SimulatedController.clockOf c).ofTime (Instant.seconds start)).toNat + 2 ^ 31 ∧
    c.clockBound horizon + w.expireTicks.toNat + 2 ^ 31 < 2 ^ 64 ∧
    c.clockBound horizon + w.minExtend.toNat < 2 ^ 64

end ControllerScenario

theorem TrsyncSettings.toNat_expire {settings : TrsyncSettings α} {n : Nat} {time : α} {clock : ClockEstimate α}
    {w : ClockWindow} (h : settings.window? n time clock = some w) :
    w.expire.toNat = w.lastStatus.toNat + w.expireTicks.toNat := by
  obtain ⟨expire, hadd, rfl⟩ := Option.map_eq_some_iff.1 h
  exact Clock.toNat_add? hadd

namespace HomingSimulation

/-- A controller is set up as its scenario says, which has room for it. -/
structure Installed (c : SimulatedController α) (scenario : Scenario α) (start horizon : Instant) : Prop where
  freq : (0.0 : α) < c.scenario.freq
  fits : c.scenario.Fits scenario start horizon
  clock : c.clock = SimulatedController.clockOf c.scenario
  period : Instant.ofSeconds? (c.scenario.period scenario.trsync scenario.controllers.length) = some c.period
  latency : Instant.ofSeconds? c.scenario.latency = some c.latency

/-- The controllers that have been added, and their endpoints, are set up as their scenarios say. -/
structure Complete (s : HomingSimulation α) (scenario : Scenario α) (start horizon : Instant) : Prop where
  clock : s.clock = SimulationClock.zero
  controllers : ∀ c ∈ s.controllers, Installed c scenario start horizon
  endpoints : ∀ (place : Nat) (ep : Endpoint α), s.dispatch.endpoints[place]? = some ep → ∃ c w,
    s.controllers[place]? = some c ∧ scenario.trsync.window? scenario.controllers.length
      scenario.simulation.startTime (SimulatedController.clockOf c.scenario) = some w ∧
    ep = (blankEndpoint place).setup w (SimulatedController.clockOf c.scenario)

/-- A controller that fits can be added. -/
theorem Complete.addController {s : HomingSimulation α} {scenario : Scenario α} {start horizon : Instant}
    {done : List (ControllerScenario α)} {c : ControllerScenario α} (h : s.Complete scenario start horizon)
    (hp : s.Prepared scenario done) (hf : (0.0 : α) < c.freq) (hfits : c.Fits scenario start horizon) :
    ∃ s', s.addController c = .ok s' ∧ s'.Complete scenario start horizon := by
  obtain ⟨p, hperiod, -⟩ := hfits.period
  obtain ⟨l, hlatency, -⟩ := hfits.latency
  obtain ⟨w, hwindow, -⟩ := hfits.window
  rw [Option.mem_def] at hperiod hlatency hwindow
  rw [hp.addController_eq]
  simp only [hwindow, hperiod, hlatency]
  refine ⟨_, rfl, h.clock, fun d hd => ?_, fun place ep hep => ?_⟩
  · rcases List.mem_append.1 hd with hd | hd
    · exact h.controllers d hd
    · rw [List.mem_singleton.1 hd]
      exact ⟨hf, hfits, rfl, hperiod, hlatency⟩
  · rw [List.getElem?_append, hp.length] at hep
    split at hep
    · rename_i hlt
      obtain ⟨d, w', hd, hw', he⟩ := h.endpoints place ep hep
      exact ⟨d, w', by rw [List.getElem?_append_left hlt, hd], hw', he⟩
    · -- the new endpoint is the last one
      rename_i hle
      have hplace : place = s.controllers.length := by
        obtain ⟨hlt, -⟩ := List.getElem?_eq_some_iff.1 hep
        rw [List.length_singleton] at hlt
        omega
      rw [hplace, Nat.sub_self] at hep
      cases hep
      refine ⟨⟨c, SimulatedController.clockOf c, p, l, none, none, none, 0⟩, w, ?_, hwindow, ?_⟩
      · rw [hplace]
        exact List.getElem?_concat_length
      · rw [hplace]

theorem complete_foldlM {scenario : Scenario α} {start horizon : Instant} :
    ∀ {cs done : List (ControllerScenario α)} {s : HomingSimulation α}, s.Complete scenario start horizon →
      s.Prepared scenario done → (∀ c ∈ cs, (0.0 : α) < c.freq ∧ c.Fits scenario start horizon) →
        ∃ s', cs.foldlM HomingSimulation.addController s = .ok s' ∧ s'.Complete scenario start horizon
  | [], _, s, h, _, _ => ⟨s, rfl, h⟩
  | c :: cs, done, s, h, hp, hfits => by
    obtain ⟨hc, hcs⟩ := List.forall_mem_cons.1 hfits
    obtain ⟨s₁, hadd, h₁⟩ := h.addController hp hc.1 hc.2
    obtain ⟨s', hrest, h'⟩ := complete_foldlM h₁ (hp.addController hadd) hcs
    refine ⟨s', ?_, h'⟩
    rw [List.foldlM_cons, hadd]
    exact hrest

/-- A scenario whose controllers all fit can be set up. -/
theorem complete_of? {scenario : Scenario α} {start horizon : Instant} (hvalid : scenario.validate = .ok ())
    (hfits : ∀ c ∈ scenario.controllers, c.Fits scenario start horizon) :
    ∃ s, of? scenario = .ok s ∧ s.Complete scenario start horizon := by
  refine complete_foldlM ⟨rfl, (fun c hc => by cases hc), fun place ep hep => ?_⟩ (prepared_empty scenario)
    fun c hc => ⟨scenario.freq_of_validate hvalid c hc, hfits c hc⟩
  simp [Dispatch.empty] at hep

/-! ## The beginning of a run -/

/-- The clocks and latencies of the controllers. -/
def timetable (s : HomingSimulation α) (horizon : Instant) : Timetable α where
  horizon := horizon
  clock place := ((s.controllers[place]?).map fun c => c.clock).getD (ClockEstimate.ofFrequency 1.0)
  latency place := ((s.controllers[place]?).map fun c => c.latency).getD 0
  bound place := ((s.controllers[place]?).map fun c => c.scenario.clockBound horizon).getD 0

/-- Up to the horizon, the clock of a controller goes on from its reference point. -/
theorem Installed.toNat_ofTime (ticking : Ticking α) {scenario : Scenario α} {start horizon t : Instant}
    {c : SimulatedController α} (h : Installed c scenario start horizon) (ht : t ≤ horizon) :
    ((SimulatedController.clockOf c.scenario).ofTime (Instant.seconds t)).toNat =
      (SimulatedController.clockOf c.scenario).refClock.toNat +
        (min (ticksAt c.scenario.freq t) 9223372036854775807).toNat := by
  obtain ⟨w, -, -, -, hroom, -⟩ := h.fits.window
  have hnonneg := ticking.nonneg t h.freq
  have hmono := ticking.mono h.freq ht
  have hread := ClockEstimate.toNat_ofTime ticking h.freq (SimulatedController.clockOf c.scenario).refClock t
  rw [ControllerScenario.clockBound] at hroom
  refine hread.trans ?_
  omega

theorem Installed.le_clockBound (ticking : Ticking α) {scenario : Scenario α} {start horizon t : Instant}
    {c : SimulatedController α} (h : Installed c scenario start horizon) (ht : t ≤ horizon) :
    ((SimulatedController.clockOf c.scenario).ofTime (Instant.seconds t)).toNat ≤ c.scenario.clockBound horizon := by
  have hmono := ticking.mono h.freq ht
  rw [h.toNat_ofTime ticking ht, ControllerScenario.clockBound]
  omega

theorem Installed.fits_timetable (ticking : Ticking α) {s : HomingSimulation α} {scenario : Scenario α}
    {start horizon : Instant} {place : Nat} {c : SimulatedController α} (h : Installed c scenario start horizon)
    (hc : s.controllers[place]? = some c) : (s.timetable horizon).Fits place c := by
  obtain ⟨p, hperiod, hwaits, hreturns⟩ := h.fits.period
  obtain ⟨l, hlatency, harrives⟩ := h.fits.latency
  rw [Option.mem_def, h.period] at hperiod
  rw [Option.mem_def, h.latency] at hlatency
  cases hperiod
  cases hlatency
  have hclock : (s.timetable horizon).clock place = SimulatedController.clockOf c.scenario := by
    simp only [timetable, hc, Option.map_some, Option.getD_some, h.clock]
  refine ⟨h.clock.trans hclock.symm, ?_, harrives, hreturns, hwaits, fun {t t'} ht ht' => ?_, fun {t} ht => ?_⟩
  · simp only [timetable, hc, Option.map_some, Option.getD_some]
  · have hlater : t' ≤ horizon := ht'
    have hmono := ticking.mono h.freq ht
    rw [Timetable.reading, Timetable.reading, hclock, h.toNat_ofTime ticking (ht.trans hlater),
      h.toNat_ofTime ticking hlater]
    omega
  · rw [Timetable.reading, hclock]
    simp only [timetable, hc, Option.map_some, Option.getD_some]
    exact h.le_clockBound ticking ht

/-- An endpoint that has been set up has room, from the clock on that its controller reads at the start. -/
theorem Installed.ample (ticking : Ticking α) {c : SimulatedController α} {scenario : Scenario α}
    {start horizon : Instant} (h : Installed c scenario start horizon) (hstart : start ≤ horizon) {place : Nat}
    {w : ClockWindow} {ep : Endpoint α}
    (hw : scenario.trsync.window? scenario.controllers.length scenario.simulation.startTime
      (SimulatedController.clockOf c.scenario) = some w)
    (hwindow : ep.window = w)
    (hmarks : ep.marks = ((blankEndpoint place).setup w (SimulatedController.clockOf c.scenario)).marks) :
    ep.Ample (c.scenario.clockBound horizon)
      ((SimulatedController.clockOf c.scenario).ofTime (Instant.seconds start)) := by
  obtain ⟨w', hw', hstatus, hnear, hticks, hextend⟩ := h.fits.window
  rw [Option.mem_def, hw] at hw'
  cases hw'
  have hexpire := TrsyncSettings.toNat_expire hw
  have hlast : ep.clock.lastClock.toNat =
      max (SimulatedController.clockOf c.scenario).refClock.toNat w.lastStatus.toNat := by
    rw [Endpoint.marks_setup] at hmarks
    exact congrArg Marks.largest hmarks
  have hread := h.toNat_ofTime ticking hstart
  subst hwindow
  exact ⟨h.le_clockBound ticking hstart, by omega, by omega, hticks, hextend⟩

/-- The state in which the dispatch of a simulation that has been set up has started. -/
theorem Complete.started (ticking : Ticking α) {s : HomingSimulation α} {scenario : Scenario α}
    {start horizon : Instant} (h : s.Complete scenario start horizon)
    (hp : s.Prepared scenario scenario.controllers) (hstart : start ≤ horizon) {reason : Reason}
    (hok : (s.dispatch.start reason).2.2 = .ok ()) :
    Paced { s with clock := s.clock.advance start, dispatch := (s.dispatch.start reason).1 } (s.timetable horizon)
      fun _ => start := by
  obtain ⟨heq, hbroken, harm⟩ := Dispatch.start_eq_ok hok
  rw [heq]
  have hnow : (s.clock.advance start).now = start := by
    rw [h.clock]
    exact Nat.max_eq_right (Nat.zero_le _)
  refine ⟨hbroken, (Dispatch.arm_length 0 s.dispatch.endpoints).trans hp.length, hnow.trans_le hstart,
    fun _ => hnow.ge, ?_, fun place c hc => ?_, fun place x hx => ?_, fun _ place ep hep => ?_⟩
  · rw [hp.pending]
    exact List.Pairwise.nil
  · exact (h.controllers c (List.mem_of_getElem? hc)).fits_timetable ticking hc
  · rw [HomingSimulation.underway, hp.pending] at hx
    cases hx
  · -- arming an endpoint changes neither its window nor its marks
    obtain ⟨ep₀, hep₀, hwindow, -⟩ := Dispatch.arm_told s.dispatch.endpoints 0 harm hep
    obtain ⟨ep₁, hep₁, hmarks⟩ := exists_part_eq (Dispatch.marks_arm 0 s.dispatch.endpoints).symm hep
    rw [hep₀] at hep₁
    cases hep₁
    obtain ⟨c, w, hc, hw, rfl⟩ := h.endpoints place ep₀ hep₀
    have hinstalled := h.controllers c (List.mem_of_getElem? hc)
    have hample := hinstalled.ample ticking hstart hw hwindow hmarks.symm
    simpa only [timetable, Timetable.reading, hc, Option.map_some, Option.getD_some, hinstalled.clock] using hample

/-- The first report of a controller and the closing of its endstop can be scheduled. -/
theorem Paced.scheduleController {s : HomingSimulation α} {T : Timetable α} {since : Nat → Instant}
    (h : s.Paced T since) {start : Instant} {entry : SimulatedController α × Nat}
    (hreturns : start + entry.1.period < Instant.limit)
    (htrigger : ∀ t ∈ entry.1.scenario.triggerTime, (Instant.ofSeconds? t).isSome) :
    ∃ s', s.scheduleController start entry = .ok s' ∧ s'.Paced T since := by
  obtain ⟨c, place⟩ := entry
  suffices hs : ∃ s', s.scheduleController start (c, place) = .ok s' by
    obtain ⟨s', hs⟩ := hs
    exact ⟨s', hs, h.undisturbed (scheduleController_undisturbed hs)⟩
  simp only [HomingSimulation.scheduleController, inTime_add hreturns, bind, Except.bind]
  cases ht : c.scenario.triggerTime with
  | none => exact ⟨_, rfl⟩
  | some t =>
    obtain ⟨time, htime⟩ := Option.isSome_iff_exists.1 (htrigger t ht)
    simp only [htime]
    exact ⟨_, rfl⟩

theorem Paced.scheduleAll {T : Timetable α} {since : Nat → Instant} (start : Instant) :
    ∀ (entries : List (SimulatedController α × Nat)) {s : HomingSimulation α}, s.Paced T since →
      (∀ e ∈ entries, start + e.1.period < Instant.limit ∧
        ∀ t ∈ e.1.scenario.triggerTime, (Instant.ofSeconds? t).isSome) →
      ∃ s', entries.foldlM (HomingSimulation.scheduleController start) s = .ok s' ∧ s'.Paced T since
  | [], s, h, _ => ⟨s, rfl, h⟩
  | e :: entries, s, h, hall => by
    obtain ⟨⟨hreturns, htrigger⟩, hrest⟩ := List.forall_mem_cons.1 hall
    obtain ⟨s₁, hs₁, h₁⟩ := h.scheduleController hreturns htrigger
    obtain ⟨s', hs', h'⟩ := Paced.scheduleAll start entries h₁ hrest
    refine ⟨s', ?_, h'⟩
    rw [List.foldlM_cons, hs₁]
    exact hs'

/-- A simulation that has been set up can begin. -/
theorem Complete.begin (ticking : Ticking α) {s : HomingSimulation α} {scenario : Scenario α}
    {start horizon : Instant} (h : s.Complete scenario start horizon) (hp : s.Prepared scenario scenario.controllers)
    (hne : scenario.controllers ≠ []) (hstart : start ≤ horizon) :
    ∃ begun, s.begin start = .ok begun ∧ begun.Paced (s.timetable horizon) fun _ => start := by
  have hlinks : ∀ ep ∈ s.dispatch.endpoints, ep.link = .intact := by
    intro ep hep
    obtain ⟨place, hplace⟩ := List.mem_iff_getElem?.1 hep
    obtain ⟨c, w, -, -, rfl⟩ := h.endpoints place ep hplace
    rfl
  have harm := Dispatch.arm_of_intact 0 s.dispatch.endpoints hlinks
  have hendpoints : s.dispatch.endpoints ≠ [] := by
    rw [← List.length_pos_iff, hp.length, ← List.length_map (fun c : SimulatedController α => c.scenario),
      hp.scenarios]
    exact List.length_pos_iff.2 hne
  have hok := Dispatch.start_ok s.scenario.simulation.reason hp.broken hp.active hendpoints harm
  obtain ⟨s₁, hs₁, h₁, -⟩ := (h.started ticking hp hstart hok).deliverAll horizon
    (s.dispatch.start s.scenario.simulation.reason).2.1
  have hcontrollers : s₁.controllers = s.controllers := (deliverAll_undisturbed hs₁).controllers
  obtain ⟨begun, hbegun, h'⟩ := Paced.scheduleAll start s₁.controllers.zipIdx h₁ fun e he => by
    have hc : e.1 ∈ s.controllers := hcontrollers ▸ List.fst_mem_of_mem_zipIdx he
    have hinstalled := h.controllers e.1 hc
    obtain ⟨p, hperiod, -, hreturns⟩ := hinstalled.fits.period
    rw [Option.mem_def, hinstalled.period] at hperiod
    cases hperiod
    exact ⟨(Nat.add_le_add_right hstart _).trans_lt hreturns, hinstalled.fits.triggerTime⟩
  refine ⟨begun, ?_, h'⟩
  unfold HomingSimulation.begin
  simp only [hok, settled, bind, Except.bind, hs₁]
  exact hbegun

/-! ## The end of a run -/

/-- A simulation that has begun has an outcome. -/
theorem Paced.runFor {s begun : HomingSimulation α} {T : Timetable α} {since : Nat → Instant}
    {start finish : Instant} (h : begun.Paced T since) (hfinish : finish ≤ T.horizon)
    (hs : Instant.ofSeconds? s.scenario.simulation.startTime = some start)
    (hf : Instant.ofSeconds? s.scenario.simulation.duration = some finish) (hbegin : s.begin start = .ok begun) :
    ∃ last report, ∀ limit, begun.load finish < limit → s.runFor limit = .ok (last, report) := by
  obtain ⟨ended, since', h', hsteps⟩ := Paced.steps hfinish (begun.load finish) h (Nat.le_refl _)
  obtain ⟨⟨stopped, hstopped⟩, hbroken, hidle, hlen⟩ := Dispatch.stop_ok h'.unbroken
  have hpaced : Paced { ended with dispatch := ended.dispatch.stop.1 } T since' :=
    h'.redispatch rfl rfl rfl hbroken hlen fun hactive => by simp [hidle] at hactive
  obtain ⟨last, hlast, -⟩ := hpaced.deliverAll finish ended.dispatch.stop.2.1
  refine ⟨last.settle, last.settle.report stopped, fun limit hlimit => ?_⟩
  rw [HomingSimulation.runFor, hs, hf]
  simp only [inTime, bind, Except.bind, hbegin, hsteps limit hlimit, hstopped, settled, hlast]
  rfl

/-! ## Simulations that do not end -/

omit [Scalar α] in
theorem insert_of_lt {β : Type} {e : Scheduled β} {l : List (Scheduled β)} (h : ∀ f ∈ l, e.time < f.time) :
    EventQueue.insert e l = e :: l := by
  cases l with
  | nil => rfl
  | cons f rest => rw [EventQueue.insert, if_pos (h f List.mem_cons_self)]

/-- The next event is the sample of a controller that does not wait between its reports, all else comes later,
and the dispatch is active. -/
structure Stalls (s : HomingSimulation α) (place : Nat) (now : Instant) : Prop where
  active : s.dispatch.active = true
  clock : s.clock.now ≤ now
  next : ∃ number rest, s.events.pending = ⟨now, number, .sample place⟩ :: rest ∧ ∀ e ∈ rest, now < e.time
  controller : ∃ c ∈ s.controllers[place]?, c.period = 0 ∧ 0 < c.latency ∧ now + c.latency < Instant.limit

/-- A report that is sent changes neither the dispatch nor the time, and arrives later. -/
theorem sendReport_later {s s' : HomingSimulation α} {q : Nat} {c : SimulatedController α} {now : Instant}
    (hs : s.sendReport q c = .ok s') (hlater : ∀ e ∈ s.events.pending, now < e.time)
    (hnow : now < s.clock.now + c.latency) :
    s'.dispatch = s.dispatch ∧ s'.clock = s.clock ∧ ∀ e ∈ s'.events.pending, now < e.time := by
  rcases sendReport_eq_ok hs with ⟨-, rfl⟩ | rfl
  · exact ⟨rfl, rfl, hlater⟩
  · refine ⟨rfl, rfl, fun e he => ?_⟩
    rcases EventQueue.mem_insert.1 he with rfl | he
    · exact hnow
    · exact hlater e he

/-- The sample is taken, and comes next again. -/
theorem Stalls.step {s : HomingSimulation α} {place : Nat} {now finish : Instant} (h : s.Stalls place now)
    (hnow : now ≤ finish) : ∃ s', s.step finish = .ok (true, s') ∧ s'.Stalls place now := by
  obtain ⟨number, rest, hp, hlater⟩ := h.next
  obtain ⟨c, hc, hperiod, hlatency, harrives⟩ := h.controller
  obtain ⟨t, ht⟩ : ∃ t : HomingSimulation α, t = s.ready ⟨now, number, .sample place⟩ rest := ⟨_, rfl⟩
  have hclock : t.clock.now = now := by
    rw [ht]
    exact Nat.max_eq_right h.clock
  have hq : t.controllers[place]? = some c := by
    rw [ht]
    exact hc
  have hlasts := c.lasts_watch t.seconds
  obtain ⟨s₁, hsend⟩ : ∃ s₁, t.sendReport place (c.watch t.seconds) = .ok s₁ := by
    refine exists_sendReport place ?_
    rw [hclock, hlasts.becomes.latency]
    exact harrives
  obtain ⟨c₁, hc₁, hlasts₁⟩ := (sendReport_lasts hq hlasts hsend).controllers place c hq
  have hafter : now < t.clock.now + (c.watch t.seconds).latency := by
    rw [hclock, hlasts.becomes.latency]
    exact Nat.lt_add_of_pos_right hlatency
  have hrest : ∀ e ∈ t.events.pending, now < e.time := by
    rw [ht]
    exact hlater
  obtain ⟨hdispatch, hclock₁, hlater₁⟩ := sendReport_later hsend hrest hafter
  have hactive : s₁.dispatch.active = true := by
    rw [hdispatch, ht]
    exact h.active
  have hstays : now + (c.watch t.seconds).period = now := by rw [hlasts.period, hperiod, Nat.add_zero]
  have hlimit : now + (c.watch t.seconds).period < Instant.limit := by
    rw [hstays]
    exact (Nat.le_add_right _ _).trans_lt harrives
  refine ⟨s₁.schedule now (.sample place), ?_, hactive, ?_,
    ⟨s₁.events.nextNumber, s₁.events.pending, ?_, hlater₁⟩, c₁, hc₁, hlasts₁.period.trans hperiod, ?_, ?_⟩
  · rw [step_eq hp, if_neg (Nat.not_lt.2 hnow), ← ht]
    simp only [HomingSimulation.happen, hq, hsend, hactive, inTime_add hlimit, hstays, bind, Except.bind, if_true]
    rfl
  · rw [show (s₁.schedule now (.sample place)).clock = s₁.clock from rfl, hclock₁, hclock]
  · exact insert_of_lt hlater₁
  · rw [hlasts₁.becomes.latency]
    exact hlatency
  · rw [hlasts₁.becomes.latency]
    exact harrives

/-- A simulation that stalls never ends. -/
theorem Stalls.steps {place : Nat} {now finish : Instant} (hnow : now ≤ finish) : ∀ (fuel : Nat)
    {s : HomingSimulation α}, s.Stalls place now → steps finish fuel s = .error .endless
  | 0, _, _ => rfl
  | fuel + 1, s, h => by
    obtain ⟨s', hs', h'⟩ := h.step hnow
    rw [HomingSimulation.steps, hs']
    exact Stalls.steps hnow fuel h'

end HomingSimulation

/-! ## The outcome -/

/-- There is room for a scenario: its start and end are points in time, and there is room for all of its
controllers. -/
structure Scenario.Fits (scenario : Scenario α) (start finish : Instant) : Prop where
  startTime : Instant.ofSeconds? scenario.simulation.startTime = some start
  duration : Instant.ofSeconds? scenario.simulation.duration = some finish
  controllers : ∀ c ∈ scenario.controllers, c.Fits scenario start (max start finish)

namespace HomingSimulation

/-- An accepted scenario that there is room for can be set up, and has the same outcome with every bound on the
number of events beyond some number. -/
theorem runs_to_completion (ticking : Ticking α) {scenario : Scenario α} (hvalid : scenario.validate = .ok ())
    {start finish : Instant} (hfits : scenario.Fits start finish) : ∃ initial events last report,
    of? scenario = .ok initial ∧ ∀ limit, events < limit → initial.runFor limit = .ok (last, report) := by
  obtain ⟨initial, hinitial, hcomplete⟩ := complete_of? hvalid hfits.controllers
  have hprepared := prepared_of? hinitial
  have hne : scenario.controllers ≠ [] := by
    intro hnil
    simp [Scenario.validate, hnil] at hvalid
  obtain ⟨begun, hbegin, hpaced⟩ := hcomplete.begin ticking hprepared hne (Nat.le_max_left start finish)
  have hstart := hfits.startTime
  have hfinish := hfits.duration
  rw [← hprepared.scenario_eq] at hstart hfinish
  obtain ⟨last, report, hrun⟩ := hpaced.runFor (Nat.le_max_right start finish) hstart hfinish hbegin
  exact ⟨initial, begun.load finish, last, report, hinitial, hrun⟩

/-- There is room for the scenario in which the endstop closes between two reports. -/
theorem runs_to_completion_between_reports : (oneEndstop 0.1).validate = .ok () ∧
    (oneEndstop 0.1).Fits 0 500000000 ∧ ∃ initial events last report, of? (oneEndstop 0.1) = .ok initial ∧
      ∀ limit, events < limit → initial.runFor limit = .ok (last, report) := by
  have hvalid : (oneEndstop 0.1).validate = .ok () := by decide +kernel
  have hfits : (oneEndstop 0.1).Fits 0 500000000 := by
    refine ⟨by decide +kernel, by decide +kernel, fun c hc => ?_⟩
    rw [List.mem_singleton.1 hc]
    exact ⟨⟨75000000, by decide +kernel, by decide +kernel, by decide +kernel⟩,
      ⟨500000, by decide +kernel, by decide +kernel⟩, by decide +kernel,
      ⟨⟨0, 250000, 250000, 100000⟩, by decide +kernel⟩⟩
  exact ⟨hvalid, hfits, runs_to_completion ticking_of_exact hvalid hfits⟩

/-- A controller that does nothing but report. -/
def idler : ControllerScenario ℚ := { ControllerScenario.named "mcu" with freq := 1000000 }

/-- The start comes before the controller has been switched on. -/
def beforeZero : Scenario ℚ := ⟨{ SimulationSettings.default with startTime := -0.1 }, .default, [idler]⟩

/-- The end comes after the end of time. -/
def pastTheEnd : Scenario ℚ := ⟨{ SimulationSettings.default with duration := 10 ^ 30 }, .default, [idler]⟩

/-- No time passes between the reports. -/
def restless : Scenario ℚ := ⟨.default, { TrsyncSettings.default with singleTimeout := 0 }, [idler]⟩

/-- The restless controller, set up. -/
def restlessInitial : HomingSimulation ℚ := (of? restless).toOption.get (by decide +kernel)

/-- The restless controller, whose first sample comes next. -/
def restlessBegun : HomingSimulation ℚ := (restlessInitial.begin 0).toOption.get (by decide +kernel)

theorem stalls_restless : restlessBegun.Stalls 0 0 :=
  ⟨by decide +kernel, by decide +kernel,
    ⟨1, restlessBegun.events.pending.tail, by decide +kernel, by decide +kernel⟩, by decide +kernel⟩

/-- Accepted scenarios without an outcome: one cannot be set up, one cannot be run, and one never ends. -/
theorem not_runs_to_completion :
    (beforeZero.validate = .ok () ∧ of? beforeZero = .error (.dispatch .clockOverflow)) ∧
    (pastTheEnd.validate = .ok () ∧ ∃ initial, of? pastTheEnd = .ok initial ∧
      ∀ limit, initial.runFor limit = .error .endOfTime) ∧
    restless.validate = .ok () ∧ ∃ initial, of? restless = .ok initial ∧
      ∀ limit, initial.runFor limit = .error .endless := by
  refine ⟨⟨by decide +kernel, ?_⟩, ⟨by decide +kernel, ?_⟩, by decide +kernel, ?_⟩
  · have hwindow : beforeZero.trsync.window? beforeZero.controllers.length beforeZero.simulation.startTime
        (SimulatedController.clockOf idler) = none := by decide +kernel
    rw [of?, show beforeZero.controllers = [idler] from rfl, List.foldlM_cons,
      (prepared_empty beforeZero).addController_eq, hwindow]
    rfl
  · have hinitial := ok_of_isSome (x := of? pastTheEnd) (by decide +kernel)
    have hstart : Instant.ofSeconds? pastTheEnd.simulation.startTime = some 0 := by decide +kernel
    have hfinish : Instant.ofSeconds? pastTheEnd.simulation.duration = none := by decide +kernel
    refine ⟨_, hinitial, fun limit => ?_⟩
    rw [runFor, (prepared_of? hinitial).scenario_eq, hstart, hfinish]
    rfl
  · have hinitial : of? restless = .ok restlessInitial := ok_of_isSome (by decide +kernel)
    have hbegin : restlessInitial.begin 0 = .ok restlessBegun := ok_of_isSome (by decide +kernel)
    have hstart : Instant.ofSeconds? restless.simulation.startTime = some 0 := by decide +kernel
    have hfinish : Instant.ofSeconds? restless.simulation.duration = some 500000000 := by decide +kernel
    refine ⟨_, hinitial, fun limit => ?_⟩
    rw [runFor, (prepared_of? hinitial).scenario_eq, hstart, hfinish]
    simp only [inTime, bind, Except.bind, hbegin, stalls_restless.steps (Nat.zero_le _) limit]

end HomingSimulation

end PrinterMotion
