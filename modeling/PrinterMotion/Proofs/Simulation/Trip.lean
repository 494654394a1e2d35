/-
The report of an endstop that closes. Its clock stands still, and the host drops what is not newer than the
last report it knows of. If the clock is ahead of all that the controller reported before, the report ends
the generation when it reaches the host, unless that has ended before: the outcome has a trigger or a
passed expire clock, and the host never has to stop the move. If it is not, the trigger can be lost with all
its repetitions, as happens when the endstop closes at the tick of a report.
-/
import PrinterMotion.Proofs.Simulation.Failure
import PrinterMotion.Proofs.Simulation.Setup

namespace PrinterMotion

variable {α : Type} [Scalar α]

/-! ## Clocks that go on -/

/-- Clocks that are less than `2 ^ 31` ticks apart. -/
def Clock.Close (a b : UInt64) : Prop := a.toNat < b.toNat + 2 ^ 31 ∧ b.toNat < a.toNat + 2 ^ 31

instance (a b : UInt64) : Decidable (Clock.Close a b) := inferInstanceAs (Decidable (_ ∧ _))

theorem Clock.near_of_close {last c : UInt64} (h : Close last c) : Near last c := by
  obtain ⟨hlow, hhigh⟩ := h
  exact ⟨by omega, hhigh⟩

theorem Clock.steady_of_close : ∀ {clocks : List UInt64} {last : UInt64},
    (last :: clocks).IsChain Close → clocks.IsChain (· ≤ ·) → Steady last clocks
  | [], _, _, _ => trivial
  | [c], last, hclose, _ => ⟨near_of_close (List.isChain_cons_cons.1 hclose).1, trivial⟩
  | c :: d :: rest, last, hclose, hle => by
    obtain ⟨hc, hclose⟩ := List.isChain_cons_cons.1 hclose
    obtain ⟨hcd, hle'⟩ := List.isChain_cons_cons.1 hle
    refine ⟨near_of_close hc, ?_⟩
    split
    · exact steady_of_close hclose hle'
    · -- the largest clock stays ahead, and the next one is as close to it as `c` is
      rename_i hlast
      obtain ⟨hd, hrest⟩ := List.isChain_cons_cons.1 hclose
      have hlastd : Close last d := by
        rw [UInt64.le_iff_toNat_le] at hcd
        rw [UInt64.lt_iff_toNat_lt] at hlast
        simp only [Close] at hc hd ⊢
        omega
      exact steady_of_close (List.isChain_cons_cons.2 ⟨hlastd, hrest⟩) hle'

/-- The ticks of a clock of a frequency up to a time. -/
def ticksAt (freq : α) (t : Instant) : Int := Scalar.floor ((Instant.seconds t - 0.0) * freq + 0.5)

/-- Arithmetic in which clocks do not go back: of a positive frequency there are no fewer ticks at a later
time, and none before time zero. -/
structure Ticking (α : Type) [Scalar α] : Prop where
  nonneg : ∀ {freq : α} (t : Instant), (0.0 : α) < freq → 0 ≤ ticksAt freq t
  mono : ∀ {freq : α} {t t' : Instant}, (0.0 : α) < freq → t ≤ t' → ticksAt freq t ≤ ticksAt freq t'

theorem Instant.seconds_eq {F : Type} [Exact F] (t : Instant) :
    (Instant.seconds t : F) = (t : F) / 1000000000 := by
  have h : (1000000000 : F) * (t / 1000000000 : Nat) + (t % 1000000000 : Nat) = t := by
    exact_mod_cast congrArg (Nat.cast (R := F)) (Nat.div_add_mod t 1000000000)
  rw [← h]
  simp only [seconds, Scalar.ofNat, Scalar.ofInt_eq, perSecond, Int.cast_natCast]
  norm_num
  ring

/-- Clocks go on in exact arithmetic. -/
theorem ticking_of_exact {F : Type} [Exact F] : Ticking F := by
  have hpos : ∀ {freq : F}, (0.0 : F) < freq → 0 < freq := by
    intro freq hf
    rwa [Scalar.zero_literal] at hf
  constructor
  · intro freq t hf
    refine Int.floor_nonneg.2 ?_
    have := hpos hf
    rw [Instant.seconds_eq, Scalar.zero_literal, sub_zero]
    positivity
  · intro freq t t' hf h
    refine Int.floor_le_floor ?_
    have hcast : (t : F) ≤ t' := Nat.cast_le.2 h
    have := hpos hf
    rw [Instant.seconds_eq, Instant.seconds_eq]
    gcongr

theorem Clock.clampSigned_of_nonneg {n : Int} (h : 0 ≤ n) : clampSigned n = min n 9223372036854775807 := by
  have hword : ((twoTo 63 : Nat) : Int) = 9223372036854775808 := rfl
  rw [clampSigned, hword]
  omega

/-- The reading of a clock that goes on from its reference point. -/
theorem ClockEstimate.toNat_ofTime (ticking : Ticking α) {freq : α} (hf : (0.0 : α) < freq) (first : UInt64)
    (t : Instant) : ((ofReference first 0.0 freq).ofTime (Instant.seconds t)).toNat =
      ((first.toNat + min (ticksAt freq t) 9223372036854775807) % 18446744073709551616).toNat := by
  rw [← Clock.clampSigned_of_nonneg (ticking.nonneg t hf)]
  exact Clock.toNat_shift first _

/-- While its readings are close to one another, a clock that goes on does not wrap. -/
theorem ClockEstimate.ofTime_le (ticking : Ticking α) {freq : α} (hf : (0.0 : α) < freq) (first : UInt64)
    {t t' : Instant} (h : t ≤ t')
    (hclose : Clock.Close ((ofReference first 0.0 freq).ofTime (Instant.seconds t))
      ((ofReference first 0.0 freq).ofTime (Instant.seconds t'))) :
    (ofReference first 0.0 freq).ofTime (Instant.seconds t) ≤
      (ofReference first 0.0 freq).ofTime (Instant.seconds t') := by
  have hmono := ticking.mono hf h
  have hfirst := first.toNat_lt
  have hnonneg := ticking.nonneg t hf
  simp only [Clock.Close, toNat_ofTime ticking hf] at hclose
  rw [UInt64.le_iff_toNat_le, toNat_ofTime ticking hf, toNat_ofTime ticking hf]
  omega

/-- Readings of a clock at times that go on, close to one another, do not go back. -/
theorem ClockEstimate.readings_le (ticking : Ticking α) {freq : α} (hf : (0.0 : α) < freq) (first : UInt64) :
    ∀ {times : List Instant}, times.Pairwise (· ≤ ·) →
      (times.map fun t => (ofReference first 0.0 freq).ofTime (Instant.seconds t)).IsChain Clock.Close →
        (times.map fun t => (ofReference first 0.0 freq).ofTime (Instant.seconds t)).IsChain (· ≤ ·)
  | [], _, _ => List.IsChain.nil
  | [t], _, _ => List.IsChain.singleton _
  | t :: t' :: rest, hsorted, hclose => by
    obtain ⟨ht, hsorted⟩ := List.pairwise_cons.1 hsorted
    obtain ⟨hfirst, hrest⟩ := List.isChain_cons_cons.1 hclose
    exact List.isChain_cons_cons.2 ⟨ofTime_le ticking hf first (ht t' List.mem_cons_self) hfirst,
      readings_le ticking hf first hsorted hrest⟩

namespace HomingSimulation

/-! ## The outcome of a run -/

omit [Scalar α] in
theorem foldl_kept {γ : Type} {f : HomingSimulation α → γ → HomingSimulation α}
    (hf : ∀ s a, (f s a).dispatch = s.dispatch ∧ (f s a).lapse = s.lapse) : ∀ (as : List γ)
    (s : HomingSimulation α), (as.foldl f s).dispatch = s.dispatch ∧ (as.foldl f s).lapse = s.lapse
  | [], _ => ⟨rfl, rfl⟩
  | a :: as, s => by
    obtain ⟨hdispatch, hlapse⟩ := foldl_kept hf as (f s a)
    exact ⟨hdispatch.trans (hf s a).1, hlapse.trans (hf s a).2⟩

theorem settle_kept (s : HomingSimulation α) : s.settle.dispatch = s.dispatch ∧ s.settle.lapse = s.lapse := by
  refine foldl_kept (fun s e => ?_) s.events.pending { s with events := { s.events with pending := [] } }
  split
  · rename_i place command _
    obtain ⟨controllers, heq⟩ := obey_frame { s with clock := s.clock.advance e.time } place command
    rw [heq]
    exact ⟨rfl, rfl⟩
  · exact ⟨rfl, rfl⟩

/-- A run whose last event leaves the generation ended stops nothing itself. -/
theorem runFor_of_ended {s begun : HomingSimulation α} {start finish : Instant} {limit : Nat}
    (hstart : Instant.ofSeconds? s.scenario.simulation.startTime = some start)
    (hfinish : Instant.ofSeconds? s.scenario.simulation.duration = some finish)
    (hbegin : s.begin start = .ok begun) (h : ∀ ended, steps finish limit begun = .ok ended → ended.Ended) :
    (∃ failure, steps finish limit begun = .error failure ∧ s.runFor limit = .error failure) ∨
      ∃ ended : HomingSimulation α, ended.Ended ∧ s.runFor limit = .ok (ended.settle, ended.settle.report false) := by
  rw [runFor, hstart, hfinish]
  simp only [inTime, bind, Except.bind, hbegin]
  cases hsteps : steps finish limit begun with
  | error failure => exact .inl ⟨failure, rfl, rfl⟩
  | ok ended =>
    have he := h ended hsteps
    have hstop : ended.dispatch.stop = (ended.dispatch, [], .ok false) := by
      simp [Dispatch.stop, he.broken, he.idle]
    refine .inr ⟨ended, he, ?_⟩
    simp only [hstop]
    rfl

theorem Ended.report {s : HomingSimulation α} (h : s.Ended) :
    (s.settle.report false).trigger.isSome = true ∨ (s.settle.report false).lapse.isSome = true := by
  obtain ⟨hdispatch, hlapse⟩ := s.settle_kept
  show s.settle.dispatch.trigger.isSome = true ∨ s.settle.lapse.isSome = true
  rw [hdispatch, hlapse]
  exact h.noticed

/-! ## The endstop closes -/

/-- The endstop of a running controller closes next. -/
structure Closes (s : HomingSimulation α) (place : Nat) (c : SimulatedController α) : Prop where
  next : s.events.pending.head?.map (fun e => e.event) = some (.endstop place)
  controller : s.controllers[place]? = some c
  running : c.stopped = none

theorem Closes.stopped {s s' : HomingSimulation α} {place : Nat} {c : SimulatedController α} {finish : Instant}
    (h : s.Closes place c) (hl : s.InLine place c) (hkept : c.scenario.lostReports = none)
    (hs : s.step finish = .ok (true, s')) : s.reporter? = some place ∧ ∃ c', s'.controllers[place]? = some c' ∧
      c'.stopped = some (Reason.endstopHit, c.clockAt s'.seconds) := by
  obtain ⟨e, rest, hp, -, hh⟩ := step_eq_true hs
  have he : e.event = .endstop place := by simpa [hp] using h.next
  obtain ⟨c', hspeaks, hstops⟩ := (hl.ready hp).happen_report hkept (by rw [he]; rfl) hh
  refine ⟨by simp [reporter?, hp, he, SimulationEvent.reporter?], c', hspeaks.line.controller, ?_⟩
  rw [hstops he h.running, seconds, seconds, hspeaks.clock]

/-- The trigger is under way, or the generation has ended. -/
theorem Closes.brings {s s' : HomingSimulation α} {place : Nat} {c : SimulatedController α} {finish : Instant}
    (h : s.Closes place c) (hs : s.step finish = .ok (true, s'))
    (hf : s.Follows place c [] (c.clockAt s'.seconds)) (hdue : s'.clock.now + c.latency ≤ finish) :
    ∃ c', s'.InLine place c' ∧ c'.scenario.lostReports = none ∧ (s'.Ended ∨ ∃ clocks,
      Brings (s'.underway place) place clocks (c.clockAt s'.seconds) finish ∧
        s'.Awaits place clocks (c.clockAt s'.seconds)) := by
  obtain ⟨us, c', hflows⟩ := hf.line.flows hf.kept hf.unbroken hs
  refine ⟨c', hflows.line, hflows.becomes.kept hf.kept, ?_⟩
  rcases hf.waits with he | ⟨clocks, hc, ha⟩
  · exact .inl (hflows.handles.ended he)
  · obtain ⟨hreporter, c'', hc'', hstopped⟩ := h.stopped hf.line hf.kept hs
    rw [hflows.line.controller] at hc''
    cases hc''
    rw [List.append_nil] at ha
    refine hflows.brings ha ⟨s.underway place, s'.clock.now + c'.latency, Reason.endstopHit, [], ?_, hc, ?_⟩
    · simp [news, hreporter, reportNow, SimulatedController.reportAt, hstopped, StatusReport.tripped]
    · rw [hflows.becomes.latency]
      exact hdue

/-- The controller of an endpoint, in a simulation that has begun. -/
theorem Begun.line {s : HomingSimulation α} {scenario : Scenario α} (h : s.Begun scenario) {place : Nat}
    {ep : Endpoint α} (hep : s.dispatch.endpoints[place]? = some ep) :
    ∃ c, s.InLine place c ∧ c.scenario ∈ scenario.controllers ∧ c.clock = SimulatedController.clockOf c.scenario := by
  have hlt : place < s.controllers.length := h.length ▸ (List.getElem?_eq_some_iff.1 hep).1
  have hmem := List.getElem_mem hlt
  refine ⟨s.controllers[place], ⟨List.getElem?_eq_getElem hlt, h.sorted, fun x hx => ?_⟩, ?_, h.clocks _ hmem⟩
  · rw [h.underway] at hx
    cases hx
  · rw [← h.scenarios]
    exact List.mem_map_of_mem hmem

theorem Begun.follows {s : HomingSimulation α} {scenario : Scenario α} (h : s.Begun scenario) {place : Nat}
    {c : SimulatedController α} (hline : s.InLine place c) (hkept : c.scenario.lostReports = none)
    {ep : Endpoint α} (hep : s.dispatch.endpoints[place]? = some ep) {clocks : List UInt64} {last : UInt64}
    (hsteady : Clock.Steady ep.clock.lastClock (clocks ++ [last]))
    (hahead : ∀ clock ∈ ep.window.lastStatus :: clocks, clock < last) : s.Follows place c clocks last := by
  obtain ⟨hoid, hstatus⟩ := h.endpoints place ep hep
  obtain ⟨hstatus', hclocks⟩ := List.forall_mem_cons.1 hahead
  refine ⟨hline, hkept, .inr ⟨[], ?_, h.active, h.canTrigger, h.broken, ep, hep, ?_⟩⟩
  · rw [Carries, h.underway]
    rfl
  · exact ⟨hoid, hstatus, hsteady, hstatus', hclocks⟩

/-- The clocks that a running controller has told, with the one that it reads next, follow closely on one
another if successive ones are close. -/
theorem course_steady (ticking : Ticking α) {finish : Instant} {place n : Nat} {s s' : HomingSimulation α}
    {c c' : SimulatedController α} {told : List (Nat × UInt64)} (h : s.course finish n = some (s', told))
    (hc' : s'.controllers[place]? = some c') (hrun : c'.stopped = none) (hline : s.InLine place c)
    (hkept : c.scenario.lostReports = none) (hb : s.dispatch.broken = false)
    (hclock : c.clock = SimulatedController.clockOf c.scenario) (hfreq : (0.0 : α) < c.scenario.freq)
    {now : Instant} (hnow : s'.clock.now ≤ now) {last : UInt64}
    (hclose : (last :: (clocksOf place told ++ [c.clock.ofTime (Instant.seconds now)])).IsChain Clock.Close) :
    Clock.Steady last (clocksOf place told ++ [c.clock.ofTime (Instant.seconds now)]) := by
  obtain ⟨-, times, htold, hsorted, hbounds⟩ := course_times h hc' hrun hline hkept hb
  have hall : clocksOf place told ++ [c.clock.ofTime (Instant.seconds now)] =
      (times ++ [now]).map fun t => c.clock.ofTime (Instant.seconds t) := by
    rw [htold, List.map_append]
    rfl
  have hsorted' : (times ++ [now]).Pairwise (· ≤ ·) := by
    refine List.pairwise_append.2 ⟨hsorted, List.pairwise_singleton .., fun t ht u hu => ?_⟩
    rw [List.mem_singleton.1 hu]
    exact (hbounds t ht).2.trans hnow
  rw [hall] at hclose ⊢
  refine Clock.steady_of_close hclose ?_
  rw [hclock] at hclose ⊢
  exact ClockEstimate.readings_le ticking hfreq _ hsorted' hclose.tail

/-- A run of a scenario in which the endstop of a running controller closes: the simulation set up and
begun, right before the endstop closes and right after that, with what controllers have told from the start
up to then. -/
structure Closing (scenario : Scenario α) where
  start : Instant
  finish : Instant
  initial : HomingSimulation α
  begun : HomingSimulation α
  before : HomingSimulation α
  after : HomingSimulation α
  events : Nat
  told : List (Nat × UInt64)
  place : Nat
  controller : SimulatedController α
  endpoint : Endpoint α
  start_eq : Instant.ofSeconds? scenario.simulation.startTime = some start
  finish_eq : Instant.ofSeconds? scenario.simulation.duration = some finish
  initial_eq : of? scenario = .ok initial
  begun_eq : initial.begin start = .ok begun
  course_eq : begun.course finish events = some (before, told)
  after_eq : before.step finish = .ok (true, after)
  closes : before.Closes place controller
  endpoint_eq : begun.dispatch.endpoints[place]? = some endpoint

namespace Closing

variable {scenario : Scenario α}

/-- The clock at which the endstop closes. -/
def clock (k : Closing scenario) : UInt64 := k.controller.clockAt k.after.seconds

/-- The clocks that the controller has told before. -/
def earlier (k : Closing scenario) : List UInt64 := clocksOf k.place k.told

/-- When the report of the trigger reaches the host. -/
def arrival (k : Closing scenario) : Instant := k.after.clock.now + k.controller.latency

/-- The endstop of the controller at a place that closes after a number of events. -/
def find? (scenario : Scenario α) (events place : Nat) : Option (Closing scenario) :=
  match hs : Instant.ofSeconds? scenario.simulation.startTime, hf : Instant.ofSeconds? scenario.simulation.duration,
    hi : of? scenario with
  | some start, some finish, .ok initial =>
    match hb : initial.begin start with
    | .ok begun =>
      match hc : begun.course finish events, he : begun.dispatch.endpoints[place]? with
      | some (before, told), some endpoint =>
        match ha : before.step finish, hk : before.controllers[place]? with
        | .ok (true, after), some controller =>
          if hn : before.events.pending.head?.map (fun e => e.event) = some (.endstop place) ∧
              controller.stopped = none then
            some { start, finish, initial, begun, before, after, events, told, place, controller, endpoint
                   start_eq := hs, finish_eq := hf, initial_eq := hi, begun_eq := hb, course_eq := hc
                   after_eq := ha, closes := ⟨hn.1, hk, hn.2⟩, endpoint_eq := he }
          else none
        | _, _ => none
      | _, _ => none
    | .error _ => none
  | _, _, _ => none

end Closing

/-- The host is to hear of the trigger behind all that the controller told before. -/
theorem Closing.follows (ticking : Ticking α) {scenario : Scenario α} (hvalid : scenario.validate = .ok ())
    (hkept : ∀ c ∈ scenario.controllers, c.lostReports = none) (k : Closing scenario)
    (hclose : (k.endpoint.clock.lastClock :: (k.earlier ++ [k.clock])).IsChain Clock.Close)
    (hahead : ∀ clock ∈ k.endpoint.window.lastStatus :: k.earlier, clock < k.clock) :
    k.before.Follows k.place k.controller [] k.clock := by
  have hbegun := (prepared_of? k.initial_eq).begin k.begun_eq
  obtain ⟨c₁, hline₁, hmem, hclock₁⟩ := hbegun.line k.endpoint_eq
  have hkept₁ := hkept _ hmem
  obtain ⟨c₂, hline, hbecomes, hunbroken⟩ := course_line hline₁ hkept₁ hbegun.broken k.course_eq
  cases hline.controller.symm.trans k.closes.controller
  obtain ⟨us, c₃, hflows⟩ := hline.flows (hbecomes.kept hkept₁) hunbroken k.after_eq
  -- the clock goes on, so close readings are steady
  have hreading : k.clock = c₁.clock.ofTime (Instant.seconds k.after.clock.now) := by
    rw [Closing.clock, SimulatedController.clockAt, hbecomes.clock, seconds]
  have hsteady := course_steady ticking k.course_eq k.closes.controller k.closes.running hline₁ hkept₁
    hbegun.broken hclock₁ (Scenario.freq_of_validate hvalid _ hmem) hflows.clock (by rw [← hreading]; exact hclose)
  rw [← hreading] at hsteady
  have hfollows := hbegun.follows hline₁ hkept₁ k.endpoint_eq hsteady hahead
  rw [← List.append_nil (clocksOf k.place k.told)] at hfollows
  exact course_follows k.course_eq k.closes.controller k.closes.running hfollows

/-- From the closing on the trigger is under way, until the generation has ended. -/
theorem Closing.ended {scenario : Scenario α} (k : Closing scenario)
    (hfollows : k.before.Follows k.place k.controller [] k.clock) (hdue : k.arrival ≤ k.finish) {limit : Nat}
    {last : HomingSimulation α} (hsteps : steps k.finish limit k.begun = .ok last) : last.Ended := by
  obtain ⟨c', hline, hkept, hbrings⟩ := k.closes.brings k.after_eq hfollows hdue
  obtain ⟨fuel, hrest⟩ := steps_course k.course_eq hsteps
  cases fuel with
  | zero => cases hrest
  | succ fuel =>
    rw [steps, k.after_eq] at hrest
    rcases hbrings with he | ⟨clocks, hbrings, hawaits⟩
    · exact steps_ended hline hkept he hrest
    · exact steps_brings hline hkept hawaits hbrings hrest

/-- In a run of an accepted scenario that loses no reports, the endstop of a running controller closes, and
the report of that reaches the host within the simulated time. If the clocks that the controller told, from
the start up to this one, are close to one another, and this one is ahead of all others, then the outcome
has a trigger or a passed expire clock, and the host did not have to stop the move. There is an outcome
unless time, the counter of a clock or the number of events does not suffice. -/
theorem trip_noticed (ticking : Ticking α) {scenario : Scenario α} (hvalid : scenario.validate = .ok ())
    (hkept : ∀ c ∈ scenario.controllers, c.lostReports = none) (k : Closing scenario)
    (hdue : k.arrival ≤ k.finish)
    (hclose : (k.endpoint.clock.lastClock :: (k.earlier ++ [k.clock])).IsChain Clock.Close)
    (hahead : ∀ clock ∈ k.endpoint.window.lastStatus :: k.earlier, clock < k.clock) (limit : Nat) :
    (∀ last report, k.initial.runFor limit = .ok (last, report) →
      (report.trigger.isSome = true ∨ report.lapse.isSome = true) ∧ report.stoppedByHost = false) ∧
    ∀ failure, k.initial.runFor limit = .error failure → failure.Exhausted := by
  have hprepared := prepared_of? k.initial_eq
  have hbegun := hprepared.begin k.begun_eq
  have hstart : Instant.ofSeconds? k.initial.scenario.simulation.startTime = some k.start := by
    rw [hprepared.scenario_eq, k.start_eq]
  have hfinish : Instant.ofSeconds? k.initial.scenario.simulation.duration = some k.finish := by
    rw [hprepared.scenario_eq, k.finish_eq]
  have hfollows := Closing.follows ticking hvalid hkept k hclose hahead
  rcases runFor_of_ended hstart hfinish k.begun_eq fun _ hsteps => k.ended hfollows hdue hsteps with
    ⟨failure, hsteps, hrun⟩ | ⟨ended, he, hrun⟩
  · rw [hrun]
    refine ⟨(fun last report h => by cases h), fun failure' h => ?_⟩
    cases h
    obtain ⟨c, hline, hmem, -⟩ := hbegun.line k.endpoint_eq
    exact exhausted_of_steps hline (hkept _ hmem) hbegun.broken hsteps
  · rw [hrun]
    refine ⟨fun last report h => ?_, (fun failure h => by cases h)⟩
    cases h
    exact ⟨he.report, rfl⟩

theorem ok_of_isSome {ε β : Type} {x : Except ε β} (h : x.toOption.isSome = true) : x = .ok (x.toOption.get h) := by
  cases x with
  | ok b => rfl
  | error e => cases h

/-- One controller that reports every 75 ms, whose endstop closes at the given time. -/
def oneEndstop (triggerTime : ℚ) : Scenario ℚ :=
  ⟨.default, .default, [{ ControllerScenario.named "mcu" with freq := 1000000, triggerTime := some triggerTime }]⟩

/-- The endstop closes between two reports. -/
def betweenReports : Closing (oneEndstop 0.1) := (Closing.find? (oneEndstop 0.1) 3 0).get (by decide +kernel)

theorem trip_noticed_between_reports : ∃ last report, betweenReports.initial.runFor 20 = .ok (last, report) ∧
    (report.trigger.isSome = true ∨ report.lapse.isSome = true) ∧ report.stoppedByHost = false := by
  have hrun := ok_of_isSome (x := betweenReports.initial.runFor 20) (by decide +kernel)
  have hahead : (betweenReports.endpoint.window.lastStatus :: betweenReports.earlier).all
      (fun clock => clock < betweenReports.clock) = true := by decide +kernel
  exact ⟨_, _, hrun, (trip_noticed ticking_of_exact (by decide +kernel) (by decide +kernel) betweenReports
    (by decide +kernel) (by decide +kernel)
    (fun clock hmem => of_decide_eq_true (List.all_eq_true.1 hahead clock hmem)) 20).1 _ _ hrun⟩

/-- The endstop closes at the time of a report. -/
def atReport : Closing (oneEndstop 0.075) := (Closing.find? (oneEndstop 0.075) 2 0).get (by decide +kernel)

/-- The trigger reaches an active dispatch together with the report made at the same tick, and is lost: the
host has to stop the move. -/
theorem not_trip_noticed_at_report : (oneEndstop 0.075).validate = .ok () ∧
    (∀ c ∈ (oneEndstop 0.075).controllers, c.lostReports = none) ∧ atReport.arrival ≤ atReport.finish ∧
    (atReport.endpoint.clock.lastClock :: (atReport.earlier ++ [atReport.clock])).IsChain Clock.Close ∧
    atReport.after.dispatch.active = true ∧
    atReport.after.events.pending.head?.map Scheduled.time = some atReport.arrival ∧
    ∃ last report, atReport.initial.runFor 40 = .ok (last, report) ∧
      report.trigger.isSome = false ∧ report.lapse = none ∧ report.stoppedByHost = true := by
  have hrun := ok_of_isSome (x := atReport.initial.runFor 40) (by decide +kernel)
  exact ⟨by decide +kernel, by decide +kernel, by decide +kernel, by decide +kernel, by decide +kernel,
    by decide +kernel, _, _, hrun, by decide +kernel, by decide +kernel, by decide +kernel⟩

end HomingSimulation

end PrinterMotion
