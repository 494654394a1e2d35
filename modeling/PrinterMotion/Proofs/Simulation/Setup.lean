/-
The state in which a simulation begins. Each controller of the scenario has its endpoint at its own place,
under an object number that is that place, and no report is under way.
-/
import PrinterMotion.Proofs.Simulation.Events

namespace PrinterMotion

variable {α : Type}

/-! ## Scenarios that are accepted -/

theorem Scenario.freq_of_validate [Scalar α] {scenario : Scenario α} (h : scenario.validate = .ok ()) :
    ∀ c ∈ scenario.controllers, (0.0 : α) < c.freq := by
  have hcheck : ∀ (cs : List (ControllerScenario α)) (before : List String),
      checkControllers before cs = .ok () → ∀ c ∈ cs, (0.0 : α) < c.freq := by
    intro cs
    induction cs with
    | nil => exact fun _ _ c hc => by cases hc
    | cons d rest ih =>
      intro before hok c hc
      rw [checkControllers] at hok
      split at hok
      · cases hok
      · rename_i hd
        rcases List.mem_cons.1 hc with rfl | hc
        · by_contra hneg
          simp [checkController, hneg] at hd
        · exact ih _ hok c hc
  unfold validate at h
  split at h
  · cases h
  · split at h
    · cases h
    · exact hcheck _ _ h

namespace HomingSimulation

/-! ## Endpoints of controllers -/

/-- An endpoint of a simulated controller: its object has the number of its place, and its estimate holds
no clock below that of its latest status. -/
structure Furnished (place : Nat) (ep : Endpoint α) : Prop where
  oid_eq : ep.oid = UInt32.ofNat place
  status_le : ep.window.lastStatus ≤ ep.clock.lastClock

theorem furnished_setup {place : Nat} {ep : Endpoint α} (h : ep.oid = UInt32.ofNat place) (w : ClockWindow)
    (ce : ClockEstimate α) : Furnished place (ep.setup w ce) := by
  refine ⟨h, ?_⟩
  show w.lastStatus ≤ if ce.lastClock < w.lastStatus then w.lastStatus else ce.lastClock
  split
  · exact UInt64.le_refl _
  · exact UInt64.not_lt.1 (by assumption)

theorem Furnished.congr {place : Nat} {ep ep' : Endpoint α} (h : Furnished place ep) (hm : ep'.marks = ep.marks)
    (ho : ep'.oid = ep.oid) : Furnished place ep' := by
  simp only [Endpoint.marks, Marks.mk.injEq, UInt64.toNat_inj] at hm
  exact ⟨ho.trans h.oid_eq, by rw [hm.1, hm.2]; exact h.status_le⟩

theorem modify_concat (f : Endpoint α → Endpoint α) (ep : Endpoint α) : ∀ eps : List (Endpoint α),
    (eps ++ [ep]).modify eps.length f = eps ++ [f ep]
  | [] => rfl
  | e :: eps => congrArg (e :: ·) (modify_concat f ep eps)

variable [Scalar α]

/-- A simulation in which the controllers `done` of its scenario have been set up. -/
structure Prepared (s : HomingSimulation α) (scenario : Scenario α) (done : List (ControllerScenario α)) :
    Prop where
  scenario_eq : s.scenario = scenario
  active : s.dispatch.active = false
  canTrigger : s.dispatch.canTrigger = false
  broken : s.dispatch.broken = false
  length : s.dispatch.endpoints.length = s.controllers.length
  endpoints : ∀ place ep, s.dispatch.endpoints[place]? = some ep → Furnished place ep
  scenarios : s.controllers.map (fun c => c.scenario) = done
  clocks : ∀ c ∈ s.controllers, c.clock = SimulatedController.clockOf c.scenario
  pending : s.events.pending = []

/-- The endpoint of the controller at a place, which has not been given any clocks. -/
def blankEndpoint (place : Nat) : Endpoint α :=
  ⟨UInt32.ofNat place, UInt32.ofNat place, MessageKind.tags, .intact, ⟨0, 0, 0, 0⟩, ClockEstimate.ofFrequency 1.0,
    false⟩

/-- A controller and its endpoint come behind the others, if its clocks and times can be represented. -/
theorem Prepared.addController_eq {s : HomingSimulation α} {scenario : Scenario α}
    {done : List (ControllerScenario α)} (h : s.Prepared scenario done) (c : ControllerScenario α) :
    s.addController c =
      match scenario.trsync.window? scenario.controllers.length scenario.simulation.startTime
          (SimulatedController.clockOf c) with
      | none => .error (.dispatch .clockOverflow)
      | some window => do
        let period ← inTime (Instant.ofSeconds? (c.period scenario.trsync scenario.controllers.length))
        let latency ← inTime (Instant.ofSeconds? c.latency)
        return { s with
          dispatch := { s.dispatch with
            endpoints := s.dispatch.endpoints ++
              [(blankEndpoint s.controllers.length).setup window (SimulatedController.clockOf c)] }
          controllers := s.controllers ++
            [⟨c, SimulatedController.clockOf c, period, latency, none, none, none, 0⟩] } := by
  have hscenario := h.scenario_eq
  subst hscenario
  obtain ⟨d, hd⟩ : ∃ d : Dispatch α, d = { s.dispatch with
    endpoints := s.dispatch.endpoints ++ [blankEndpoint s.controllers.length] } := ⟨_, rfl⟩
  have hregister : s.dispatch.register .intact (UInt32.ofNat s.controllers.length)
      (UInt32.ofNat s.controllers.length) MessageKind.tags = (d, .ok s.dispatch.endpoints.length) := by
    rw [Dispatch.register, if_neg (by simp [h.broken]), if_neg (by simp [h.active]), hd]
    rfl
  have hsetup : ∀ window, d.setup s.controllers.length window (SimulatedController.clockOf c) =
      ({ s.dispatch with endpoints := s.dispatch.endpoints ++
        [(blankEndpoint s.controllers.length).setup window (SimulatedController.clockOf c)] }, .ok ()) := by
    intro window
    rw [hd, Dispatch.setup, if_neg (by simp [h.broken]), if_neg (by simp [h.active]), ← h.length, modify_concat]
  unfold HomingSimulation.addController
  simp only [hregister, hsetup, settled, bind, Except.bind]
  cases s.scenario.trsync.window? s.scenario.controllers.length s.scenario.simulation.startTime
    (SimulatedController.clockOf c) <;> rfl

theorem Prepared.addController {s s' : HomingSimulation α} {scenario : Scenario α}
    {done : List (ControllerScenario α)} {c : ControllerScenario α} (h : s.Prepared scenario done)
    (hs : s.addController c = .ok s') : s'.Prepared scenario (done ++ [c]) := by
  rw [h.addController_eq] at hs
  split at hs
  · cases hs
  · obtain ⟨period, -, hs⟩ := bind_eq_ok.1 hs
    obtain ⟨latency, -, hs⟩ := bind_eq_ok.1 hs
    cases hs
    refine ⟨h.scenario_eq, h.active, h.canTrigger, h.broken, ?_, fun place ep hep => ?_, ?_, ?_, h.pending⟩
    · simp [h.length]
    · -- the new endpoint is the last one
      rw [List.getElem?_append] at hep
      split at hep
      · exact h.endpoints place ep hep
      · rename_i hle
        have hplace : place = s.dispatch.endpoints.length := by
          obtain ⟨hlt, -⟩ := List.getElem?_eq_some_iff.1 hep
          rw [List.length_singleton] at hlt
          omega
        rw [hplace, Nat.sub_self] at hep
        cases hep
        rw [hplace, h.length]
        exact furnished_setup rfl _ _
    · simp [h.scenarios]
    · intro c' hc'
      rcases List.mem_append.1 hc' with hc' | hc'
      · exact h.clocks c' hc'
      · rw [List.mem_singleton.1 hc']

theorem prepared_foldlM {scenario : Scenario α} : ∀ {cs done : List (ControllerScenario α)}
    {s s' : HomingSimulation α}, s.Prepared scenario done → cs.foldlM HomingSimulation.addController s = .ok s' →
      s'.Prepared scenario (done ++ cs)
  | [], done, _, _, h, hs => by
    cases hs
    rwa [List.append_nil]
  | c :: cs, done, s, s', h, hs => by
    rw [List.foldlM_cons] at hs
    obtain ⟨s₁, hadd, hrest⟩ := bind_eq_ok.1 hs
    rw [List.append_cons]
    exact prepared_foldlM (h.addController hadd) hrest

theorem prepared_empty (scenario : Scenario α) : Prepared
    ⟨scenario, EventQueue.empty, SimulationClock.zero, Dispatch.empty, [], [], 0, none⟩ scenario [] := by
  refine ⟨rfl, rfl, rfl, rfl, rfl, fun place ep hep => ?_, rfl, fun c hc => ?_, rfl⟩
  · simp [Dispatch.empty] at hep
  · cases hc

theorem prepared_of? {scenario : Scenario α} {s : HomingSimulation α} (h : of? scenario = .ok s) :
    s.Prepared scenario scenario.controllers := prepared_foldlM (prepared_empty scenario) h

/-! ## The first events -/

theorem scheduleController_undisturbed {start : Instant} {s s' : HomingSimulation α}
    {entry : SimulatedController α × Nat} (h : s.scheduleController start entry = .ok s') : s.Undisturbed s' :=
  scheduleController_keeps s.Undisturbed
    (fun time _ hu => ⟨hu.trans (undisturbed_schedule _ time rfl), hu.trans (undisturbed_schedule _ time rfl)⟩)
    (.refl s) h

/-- A simulation that has begun: the dispatch is active, and no report is under way. -/
structure Begun (s : HomingSimulation α) (scenario : Scenario α) : Prop where
  active : s.dispatch.active = true
  canTrigger : s.dispatch.canTrigger = s.dispatch.active
  broken : s.dispatch.broken = false
  length : s.dispatch.endpoints.length = s.controllers.length
  endpoints : ∀ place ep, s.dispatch.endpoints[place]? = some ep → Furnished place ep
  scenarios : s.controllers.map (fun c => c.scenario) = scenario.controllers
  clocks : ∀ c ∈ s.controllers, c.clock = SimulatedController.clockOf c.scenario
  sorted : EventQueue.Sorted s.events.pending
  underway : ∀ place, s.underway place = []

theorem Prepared.begin {s s' : HomingSimulation α} {scenario : Scenario α} {start : Instant}
    (h : s.Prepared scenario scenario.controllers) (hs : s.begin start = .ok s') : s'.Begun scenario := by
  obtain ⟨hok, s₁, hdeliver, hs⟩ := begin_eq_ok hs
  have hu := (deliverAll_undisturbed hdeliver).trans (foldlM_undisturbed scheduleController_undisturbed hs)
  obtain ⟨hstart, hbroken, -⟩ := Dispatch.start_eq_ok hok
  have hdispatch : s'.dispatch = s.dispatch.restarted s.scenario.simulation.reason :=
    hu.dispatch.trans (congrArg Prod.fst hstart)
  -- the start arms endpoints, which changes neither their clocks nor their object numbers
  obtain ⟨hmarks, -⟩ := Dispatch.start_marks (h.canTrigger.trans h.active.symm) s.scenario.simulation.reason
  rw [hstart] at hmarks
  have haddress := Dispatch.arm_address 0 s.dispatch.endpoints
  refine ⟨?_, ?_, ?_, ?_, fun place ep hep => ?_, ?_, ?_, ?_, fun place => ?_⟩
  · rw [hdispatch]
    rfl
  · rw [hdispatch]
    rfl
  · rw [hdispatch]
    exact hbroken
  · rw [hdispatch, hu.controllers]
    exact (Dispatch.arm_length 0 s.dispatch.endpoints).trans h.length
  · rw [hdispatch] at hep
    obtain ⟨ep₀, hep₀, ha⟩ := exists_part_eq haddress.symm hep
    obtain ⟨ep₁, hep₁, hm⟩ := exists_part_eq (Eq.symm hmarks) hep
    rw [hep₀] at hep₁
    cases hep₁
    exact (h.endpoints place ep₀ hep₀).congr hm.symm (congrArg (fun a => a.2.1) ha.symm)
  · rw [hu.controllers]
    exact h.scenarios
  · rw [hu.controllers]
    exact h.clocks
  · exact hu.sorted (by rw [h.pending]; exact List.Pairwise.nil)
  · rw [hu.underway]
    simp [HomingSimulation.underway, reportsFrom, h.pending]

end HomingSimulation

end PrinterMotion
