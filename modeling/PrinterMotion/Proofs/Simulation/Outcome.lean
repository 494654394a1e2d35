/-
The outcome of a run. A generation ends by a trigger, by a passed expire clock or at the request of the host,
and an outcome tells of exactly one of these. Where it is a trigger, the outcome names a controller that has
stopped for the reason given, and every other controller has been sent one command to stop. What carries
this is that reports under way tell the truth about their controllers, of which those that have stopped
never change again.
-/
import PrinterMotion.Proofs.Simulation.Told

namespace PrinterMotion

namespace HomingSimulation

variable {α : Type} [Scalar α]

/-! ## How far a run has come -/

/-- The controller at a place has stopped for a reason. -/
def StoppedFor (s : HomingSimulation α) (place : Nat) (reason : Reason) : Prop :=
  ∃ c, s.controllers[place]? = some c ∧ c.stopped.map Prod.fst = some reason

omit [Scalar α] in
theorem StoppedFor.lasts {s s' : HomingSimulation α} {place : Nat} {reason : Reason}
    (h : s.StoppedFor place reason) (hl : s.Lasts s') : s'.StoppedFor place reason := by
  obtain ⟨c, hc, hs⟩ := h
  obtain ⟨x, hx, rfl⟩ := Option.map_eq_some_iff.1 hs
  obtain ⟨c', hc', hlasts⟩ := hl.controllers place c hc
  exact ⟨c', hc', by rw [hlasts.becomes.stopped x hx]; rfl⟩

/-- How far a run has come: nothing has ended the generation, or a trigger has, or a passed expire clock. -/
inductive Stage (s : HomingSimulation α) : Prop where
  | underway (active : s.dispatch.active = true) (trigger : s.dispatch.trigger = none) (lapse : s.lapse = none)
      (untold : ∀ ep ∈ s.dispatch.endpoints, ep.notified = false) (told : s.Told fun _ => 0)
  | triggered (event : TriggerEvent α) (idle : s.dispatch.active = false)
      (trigger : s.dispatch.trigger = some event) (lapse : s.lapse = none)
      (stopped : s.StoppedFor event.endpoint event.reason)
      (told : s.Told fun place => if place = event.endpoint then 0 else 1)
  | lapsed (idle : s.dispatch.active = false) (trigger : s.dispatch.trigger = none)
      (lapse : s.lapse.isSome = true)

/-- A simulation in which reports under way tell why their controllers have stopped. -/
structure Truthful (s : HomingSimulation α) : Prop where
  distinct : s.Distinct
  length : s.dispatch.endpoints.length = s.controllers.length
  tags : ∀ ep ∈ s.dispatch.endpoints, ep.tags = MessageKind.tags
  reports : ∀ place, ∀ x ∈ s.underway place, x.2.canTrigger = false → s.StoppedFor place x.2.reason
  stage : s.Stage

omit [Scalar α] in
theorem Stage.lasts {s s' : HomingSimulation α} (h : s.Stage) (hl : s.Lasts s') (hd : s'.dispatch = s.dispatch)
    (hlapse : s'.lapse = s.lapse) (htold : ∀ count, s.Told count → s'.Told count) : s'.Stage := by
  cases h with
  | underway active trigger lapse untold told =>
    exact .underway (hd ▸ active) (hd ▸ trigger) (hlapse ▸ lapse) (hd ▸ untold) (htold _ told)
  | triggered event idle trigger lapse stopped told =>
    exact .triggered event (hd ▸ idle) (hd ▸ trigger) (hlapse ▸ lapse) (stopped.lasts hl) (htold _ told)
  | lapsed idle trigger lapse => exact .lapsed (hd ▸ idle) (hd ▸ trigger) (hlapse ▸ lapse)

omit [Scalar α] in
/-- Controllers go on, and new reports tell the truth. -/
theorem Truthful.lasts {s s' : HomingSimulation α} (h : s.Truthful) (hl : s.Lasts s')
    (hd : s'.dispatch = s.dispatch) (hlapse : s'.lapse = s.lapse) (hlog : s'.log = s.log)
    (hreports : ∀ place, ∀ x ∈ s'.underway place, x ∈ s.underway place ∨
      (x.2.canTrigger = false → s'.StoppedFor place x.2.reason)) : s'.Truthful := by
  refine ⟨hl.distinct h.distinct, ?_, hd ▸ h.tags, fun place x hx hcan => ?_,
    h.stage.lasts hl hd hlapse fun _ ht => ht.lasts hl hlog⟩
  · rw [hd, hl.length, h.length]
  · rcases hreports place x hx with hold | hnew
    · exact (h.reports place x hold hcan).lasts hl
    · exact hnew hcan

/-! ## What events do -/

omit [Scalar α] in
theorem Truthful.schedule {s : HomingSimulation α} (h : s.Truthful) (time : Instant) {event : SimulationEvent}
    (he : event.isArrival = false) : (s.schedule time event).Truthful := by
  have hu := s.undisturbed_schedule time he
  exact h.lasts (lasts_of_eq rfl) rfl rfl rfl fun place x hx => .inl (hu.underway place ▸ hx)

theorem Truthful.sendReport {s s' : HomingSimulation α} {q : Nat} {c c' : SimulatedController α}
    (h : s.Truthful) (hq : s.controllers[q]? = some c) (hl : c.Lasts c') (hs : s.sendReport q c' = .ok s') :
    s'.Truthful := by
  have hlasts := sendReport_lasts hq hl hs
  rcases sendReport_eq_ok hs with ⟨-, rfl⟩ | rfl
  · exact h.lasts hlasts rfl rfl rfl fun place x hx => .inl hx
  · refine h.lasts hlasts rfl rfl rfl fun place x hx => ?_
    obtain ⟨e, he, hr, ht⟩ := mem_underway.1 hx
    rcases EventQueue.mem_insert.1 he with rfl | he
    · -- the new report tells of the controller as it is
      right
      intro hcan
      obtain ⟨rfl, hreport⟩ := SimulationEvent.arrival.inj hr
      refine ⟨{ c' with reportsSent := c'.reportsSent + 1 },
        List.getElem?_set_self (List.getElem?_eq_some_iff.1 hq).1, ?_⟩
      rw [← hreport] at hcan ⊢
      unfold SimulatedController.reportAt at hcan ⊢
      cases hstopped : c'.stopped with
      | none => simp [hstopped] at hcan
      | some x => simp
    · exact .inl (mem_underway.2 ⟨e, he, hr, ht⟩)

theorem Truthful.obey {s : HomingSimulation α} (h : s.Truthful) (q : Nat) (command : Command) :
    (s.obey q command).Truthful := by
  have hlasts := s.obey_lasts q command
  obtain ⟨controllers, heq⟩ := s.obey_frame q command
  rw [heq] at hlasts ⊢
  exact h.lasts hlasts rfl rfl rfl fun _ _ hx => .inl hx

omit [Scalar α] in
theorem tags_of_address {as bs : List (Endpoint α)} (h : bs.map Endpoint.address = as.map Endpoint.address)
    (ht : ∀ ep ∈ as, ep.tags = MessageKind.tags) : ∀ ep ∈ bs, ep.tags = MessageKind.tags := by
  intro ep hep
  obtain ⟨e, he, ha⟩ := List.mem_map.1 (h ▸ List.mem_map_of_mem hep : ep.address ∈ as.map Endpoint.address)
  have htags : e.tags = ep.tags := congrArg (fun a => a.2.2) ha
  rw [← htags, ht e he]

/-- Reports that arrive are no triggers sent. -/
theorem triggersTo_heard (s : HomingSimulation α) (arrivals : List (Nat × StatusReport)) (extensions : Nat)
    (lapse : Option DispatchError) (name : String) :
    (s.heard arrivals extensions lapse).triggersTo name = s.triggersTo name := by
  have hnone : ((arrivals.map s.arrivalRecord).countP fun m => m.kind = .trigger ∧ m.controller = name) = 0 := by
    refine List.countP_eq_zero.2 fun m hm => ?_
    obtain ⟨arrival, -, rfl⟩ := List.mem_map.1 hm
    simp [arrivalRecord]
  simp only [heard, triggersTo, messages, List.countP_reverse, List.countP_append, hnone, Nat.zero_add]

omit [Scalar α] in
/-- Where expire clocks are extended, a generation is still under way: nobody is told to stop. -/
theorem Stage.extended {s s' : HomingSimulation α} {d : Dispatch α} {posts : List Post} (h : s.Truthful)
    (hextends : Dispatch.Extends s.dispatch posts d) (hd : s'.dispatch = d) (hactive : s.dispatch.active = true)
    (htrigger : s.dispatch.trigger = none) (hlapse : s'.lapse = none)
    (huntold : ∀ ep ∈ s.dispatch.endpoints, ep.notified = false)
    (htold : s'.Told fun place => triggersAmong posts place) : s'.Stage := by
  refine .underway ?_ ?_ hlapse (fun ep hep => ?_) fun place c hc => ?_
  · rw [hd, hextends.kept.active, hactive]
  · rw [hd, hextends.kept.trigger, htrigger]
  · rw [hd] at hep
    obtain ⟨k, hk⟩ := List.getElem?_of_mem hep
    obtain ⟨e, he, hs⟩ := exists_part_eq hextends.kept.endpoints.symm hk
    exact (congrArg Prod.snd hs).symm.trans (huntold e (List.mem_of_getElem? he))
  · rw [htold place c hc]
    exact triggersAmong_timeouts h.tags hextends.timeouts place

/-- What a batch makes of a generation under way. -/
theorem Stage.batch {s s' : HomingSimulation α} {arrivals : List (Nat × StatusReport)} (h : s.Truthful)
    (htrue : ∀ x ∈ arrivals, x.2.canTrigger = false → s'.StoppedFor x.1 x.2.reason)
    (hl : s.Lasts s') (hd : s'.dispatch = (s.dispatch.batch (updates arrivals)).1)
    (hanswer : (∃ outcomes, (s.dispatch.batch (updates arrivals)).2.2 = .ok outcomes) ∧ s'.lapse = s.lapse ∨
      (∃ oid clock expire, (s.dispatch.batch (updates arrivals)).2.2 = .error (.lapsed oid clock expire)) ∧
        s'.lapse.isSome = true)
    (hactive : s.dispatch.active = true) (htrigger : s.dispatch.trigger = none) (hlapse : s.lapse = none)
    (huntold : ∀ ep ∈ s.dispatch.endpoints, ep.notified = false)
    (htold : s'.Told fun place => triggersAmong (s.dispatch.batch (updates arrivals)).2.1 place) : s'.Stage := by
  rcases s.dispatch.batch_cases (updates arrivals) with ⟨hextends, hnone, -⟩ | ⟨decision, hends, hdecided⟩
  · refine .extended h hextends hd hactive htrigger ?_ huntold htold
    rcases hanswer with ⟨-, hsame⟩ | ⟨⟨oid, clock, expire, ho⟩, -⟩
    · exact hsame.trans hlapse
    · rw [ho] at hnone
      cases hnone
  · have hcount : ∀ place c, s'.controllers[place]? = some c →
        s'.triggersTo c.scenario.name = if decision.winner? = some place then 0 else 1 := by
      intro place c hc
      rw [htold place c hc]
      refine triggersAmong_ends hends h.tags huntold ?_
      rw [h.length, ← hl.length]
      exact (List.getElem?_eq_some_iff.1 hc).1
    have hidle : s'.dispatch.active = false := hd ▸ hends.idle
    have hafter : s'.dispatch.trigger = decision.event? := by
      rw [hd, hends.trigger, htrigger, Option.or_none]
    rcases hanswer with ⟨⟨outcomes, ho⟩, hsame⟩ | ⟨⟨oid, clock, expire, ho⟩, hsome⟩
    · -- the decision is among the outcomes, so it is a trigger
      rw [ho] at hdecided
      obtain ⟨event, rfl⟩ := Dispatch.triggered_of_outcomes hdecided
      have hfired : (s.dispatch.batch (updates arrivals)).1.trigger = some event := hd ▸ hafter
      obtain ⟨u, hu, hplace, hcan, hreason⟩ := Dispatch.batch_trigger htrigger hfired
      obtain ⟨x, hx, rfl⟩ := List.mem_map.1 hu
      have hstopped : s'.StoppedFor event.endpoint event.reason := by
        rw [← Option.some.inj hplace, ← hreason]
        exact htrue x hx hcan
      refine .triggered event hidle hafter (hsame.trans hlapse) hstopped fun place c hc => ?_
      rw [hcount place c hc]
      simp [Dispatch.Decision.winner?, Dispatch.Decision.event?, eq_comm]
    · rw [ho] at hdecided
      cases hdecided
      exact .lapsed hidle hafter hsome

/-- Reports that tell the truth reach the dispatch. -/
theorem Truthful.receive {s s' : HomingSimulation α} {arrivals : List (Nat × StatusReport)} (h : s.Truthful)
    (htrue : ∀ x ∈ arrivals, x.2.canTrigger = false → s.StoppedFor x.1 x.2.reason)
    (hs : s.receive arrivals = .ok s') : s'.Truthful := by
  obtain ⟨⟨hdispatch, hanswer⟩, hcontrollers, -, hunder, -⟩ := receive_handles hs
  have hl : s.Lasts s' := lasts_of_eq hcontrollers
  have haddress : s'.dispatch.endpoints.map Endpoint.address = s.dispatch.endpoints.map Endpoint.address := by
    rw [hdispatch, Dispatch.batch_address]
  have htold : ∀ count, s.Told count → s'.Told fun place =>
      count place + triggersAmong (s.dispatch.batch (updates arrivals)).2.1 place := by
    intro count ht
    obtain ⟨extensions, lapse, -, hdeliver⟩ := receive_eq_ok hs
    have hsent : (s.heard arrivals extensions lapse).Told count := fun place c hc => by
      rw [triggersTo_heard, ht place c hc]
    exact hsent.deliverAll h.distinct hdeliver
  refine ⟨hl.distinct h.distinct, ?_, tags_of_address haddress h.tags, fun place x hx hcan => ?_, ?_⟩
  · rw [hl.length, ← h.length]
    simpa using congrArg List.length haddress
  · exact (h.reports place x (hunder place ▸ hx) hcan).lasts hl
  have idle : s.dispatch.active = false → s'.Stage := by
    intro hidle
    have hb : s.dispatch.broken = false := by
      rw [Bool.eq_false_iff]
      intro hbroken
      rcases hanswer with ⟨⟨outcomes, ho⟩, -⟩ | ⟨⟨oid, clock, expire, ho⟩, -⟩ <;>
        · rw [Dispatch.batch, if_pos hbroken] at ho
          cases ho
    have hnone := Dispatch.batch_idle hb (by rw [hidle]; rfl) (updates arrivals)
    rw [hnone] at hdispatch hanswer htold
    refine h.stage.lasts hl hdispatch ?_ htold
    rcases hanswer with ⟨-, hlapse⟩ | ⟨⟨oid, clock, expire, ho⟩, -⟩
    · exact hlapse
    · cases ho
  cases h.stage with
  | triggered event hidle => exact idle hidle
  | lapsed hidle => exact idle hidle
  | underway active trigger lapse untold told =>
    have hsent := htold _ told
    simp only [Nat.zero_add] at hsent
    exact Stage.batch h (fun x hx hcan => (htrue x hx hcan).lasts hl) hl hdispatch hanswer active trigger lapse
      untold hsent

theorem Truthful.happen {s s' : HomingSimulation α} {time : Instant} {event : SimulationEvent} (h : s.Truthful)
    (htrue : ∀ place report, event = .arrival place report → report.canTrigger = false →
      s.StoppedFor place report.reason)
    (hs : s.happen time event = .ok s') : s'.Truthful := by
  cases event with
  | sample q =>
    simp only [HomingSimulation.happen] at hs
    split at hs
    · cases hs
      exact h
    · rename_i c hq
      obtain ⟨s₁, hsend, hs⟩ := bind_eq_ok.1 hs
      have hsent := h.sendReport hq (c.lasts_watch s.seconds) hsend
      split at hs
      · obtain ⟨next, -, hs⟩ := bind_eq_ok.1 hs
        cases hs
        exact hsent.schedule next rfl
      · cases hs
        exact hsent
  | endstop q =>
    simp only [HomingSimulation.happen] at hs
    split at hs
    · cases hs
      exact h
    · rename_i c hq
      exact h.sendReport hq (c.lasts_stop _ _ _) hs
  | arrival q report =>
    simp only [HomingSimulation.happen, EventQueue.popWhile] at hs
    -- the reports that arrive together were all under way, and those left are too
    have hrest : Truthful { s with
        events := { s.events with pending := s.events.pending.dropWhile (Scheduled.arrivesAt time) } } := by
      refine h.lasts (lasts_of_eq rfl) rfl rfl rfl fun place x hx => .inl ?_
      obtain ⟨e, he, hr, ht⟩ := mem_underway.1 hx
      exact mem_underway.2 ⟨e, (List.dropWhile_sublist _).subset he, hr, ht⟩
    refine hrest.receive (fun x hx hcan => ?_) hs
    rcases List.mem_cons.1 hx with rfl | hx
    · exact htrue q report rfl hcan
    · obtain ⟨e, he, hr⟩ := List.mem_filterMap.1 hx
      exact h.reports x.1 (e.time, x.2) (mem_underway.2
        ⟨e, (List.takeWhile_sublist _).subset he, SimulationEvent.eq_arrival hr, rfl⟩) hcan
  | order q command =>
    cases hs
    exact h.obey q command

theorem Truthful.step {s s' : HomingSimulation α} {finish : Instant} {more : Bool} (h : s.Truthful)
    (hs : s.step finish = .ok (more, s')) : s'.Truthful := by
  cases hp : s.events.pending with
  | nil =>
    simp only [HomingSimulation.step, EventQueue.pop, hp] at hs
    cases hs
    exact h
  | cons e rest =>
    have hready : (s.ready e rest).Truthful := by
      refine h.lasts (lasts_of_eq rfl) rfl rfl rfl fun place x hx => .inl ?_
      obtain ⟨f, hf, hr, ht⟩ := mem_underway.1 hx
      exact mem_underway.2 ⟨f, by rw [hp]; exact List.mem_cons_of_mem _ hf, hr, ht⟩
    rw [step_eq hp] at hs
    split at hs
    · cases hs
      exact ⟨hready.distinct, hready.length, hready.tags, hready.reports,
        hready.stage.lasts (lasts_of_eq rfl) rfl rfl fun _ ht => ht⟩
    · split at hs
      · rename_i s'' hh
        cases hs
        refine hready.happen (fun place report he hcan => ?_) hh
        exact h.reports place (e.time, report) (mem_underway.2 ⟨e, by rw [hp]; exact List.mem_cons_self, he, rfl⟩) hcan
      · cases hs

theorem Truthful.steps {finish : Instant} : ∀ {fuel : Nat} {s s' : HomingSimulation α}, s.Truthful →
    steps finish fuel s = .ok s' → s'.Truthful
  | 0, _, _, _, hs => by cases hs
  | fuel + 1, s, s', h, hs => by
    rw [HomingSimulation.steps] at hs
    split at hs
    · cases hs
    · rename_i s₁ hstep
      cases hs
      exact h.step hstep
    · rename_i s₁ hstep
      exact (h.step hstep).steps hs

/-! ## The beginning of a run -/

/-- A simulation that has not begun: nothing has been sent, and no controller has stopped. -/
structure Fresh (s : HomingSimulation α) : Prop where
  silent : s.Silent
  lapse : s.lapse = none
  tags : ∀ ep ∈ s.dispatch.endpoints, ep.tags = MessageKind.tags
  running : ∀ c ∈ s.controllers, c.stopped = none ∧ c.stopTime = none

theorem Fresh.addController {s s' : HomingSimulation α} {scenario : Scenario α}
    {done : List (ControllerScenario α)} {c : ControllerScenario α} (h : s.Fresh) (hp : s.Prepared scenario done)
    (hs : s.addController c = .ok s') : s'.Fresh := by
  have hsilent := h.silent.addController hs
  rw [hp.addController_eq] at hs
  split at hs
  · cases hs
  · obtain ⟨period, -, hs⟩ := bind_eq_ok.1 hs
    obtain ⟨latency, -, hs⟩ := bind_eq_ok.1 hs
    cases hs
    refine ⟨hsilent, h.lapse, fun ep hep => ?_, fun d hd => ?_⟩
    · rcases List.mem_append.1 hep with hep | hep
      · exact h.tags ep hep
      · rw [List.mem_singleton.1 hep]
        rfl
    · rcases List.mem_append.1 hd with hd | hd
      · exact h.running d hd
      · rw [List.mem_singleton.1 hd]
        exact ⟨rfl, rfl⟩

theorem fresh_of? {scenario : Scenario α} {s : HomingSimulation α} (h : of? scenario = .ok s) : s.Fresh := by
  refine (foldlM_keeps (P := fun s : HomingSimulation α => (∃ done, s.Prepared scenario done) ∧ s.Fresh)
    (fun hp hs => ?_) ⟨⟨[], ?_⟩, ?_⟩ h).2
  · obtain ⟨⟨done, hprepared⟩, hfresh⟩ := hp
    exact ⟨⟨_, hprepared.addController hs⟩, hfresh.addController hprepared hs⟩
  · exact prepared_empty scenario
  · exact ⟨⟨rfl, rfl, by simp⟩, rfl, by simp [Dispatch.empty], by simp⟩

/-- When the dispatch has started, nobody has been told to stop, and no report is under way. -/
theorem Fresh.begin {s s' : HomingSimulation α} {scenario : Scenario α} {start : Instant} (h : s.Fresh)
    (hp : s.Prepared scenario scenario.controllers) (hd : s.Distinct) (hs : s.begin start = .ok s') :
    s'.Truthful := by
  obtain ⟨hok, s₁, hdeliver, hs⟩ := begin_eq_ok hs
  obtain ⟨hstart, -, harmed⟩ := Dispatch.start_eq_ok hok
  have hu := deliverAll_undisturbed hdeliver
  have hdispatch : s₁.dispatch = s.dispatch.restarted s.scenario.simulation.reason :=
    hu.dispatch.trans (congrArg Prod.fst hstart)
  have haddress : s₁.dispatch.endpoints.map Endpoint.address = s.dispatch.endpoints.map Endpoint.address := by
    rw [hdispatch]
    exact Dispatch.arm_address 0 s.dispatch.endpoints
  have htimeouts : ∀ p ∈ (s.dispatch.start s.scenario.simulation.reason).2.1,
      ∃ ep, s.dispatch.endpoints[p.endpoint]? = some ep ∧ ep.IsTimeout p.command := by
    rw [hstart]
    exact fun _ => Dispatch.isTimeout_of_mem_arm
  have htold : s₁.Told fun _ => 0 := by
    have hsilent : Told { s with
        clock := s.clock.advance start
        dispatch := (s.dispatch.start s.scenario.simulation.reason).1 } fun _ => 0 := by
      intro place c _
      simp [triggersTo, messages, h.silent.log]
    have hsent := hsilent.deliverAll hd hdeliver
    simpa only [triggersAmong_timeouts h.tags htimeouts] using hsent
  refine scheduleAll_keeps Truthful (fun time _ ht => ⟨ht.schedule time rfl, ht.schedule time rfl⟩) ?_ hs
  refine ⟨(lasts_of_eq hu.controllers).distinct hd, ?_, tags_of_address haddress h.tags, fun place x hx => ?_, ?_⟩
  · rw [hu.controllers]
    rw [hdispatch]
    exact (Dispatch.arm_length 0 s.dispatch.endpoints).trans hp.length
  · rw [hu.underway] at hx
    simp [HomingSimulation.underway, reportsFrom, hp.pending] at hx
  · refine .underway ?_ ?_ (hu.lapse.trans h.lapse) (fun ep hep => ?_) htold
    · rw [hdispatch]
      rfl
    · rw [hdispatch]
      rfl
    · rw [hdispatch] at hep
      exact Dispatch.arm_notified 0 s.dispatch.endpoints harmed ep hep

/-! ## The outcome -/

/-- Commands that are still to arrive stop controllers, and change nothing else that the outcome tells of. -/
theorem settle_frame (s : HomingSimulation α) : s.Lasts s.settle ∧ s.settle.log = s.log := by
  have hfold : ∀ (pending : List (Scheduled SimulationEvent)) (t : HomingSimulation α),
      t.Lasts (pending.foldl settleEvent t) ∧ (pending.foldl settleEvent t).log = t.log := by
    intro pending
    induction pending with
    | nil => exact fun t => ⟨lasts_of_eq rfl, rfl⟩
    | cons e rest ih =>
      intro t
      have hlog : (t.settleEvent e).log = t.log := by
        unfold settleEvent
        split
        · rename_i place command _
          obtain ⟨controllers, heq⟩ := obey_frame { t with clock := t.clock.advance e.time } place command
          rw [heq]
        · rfl
      obtain ⟨hlasts, hrest⟩ := ih (t.settleEvent e)
      exact ⟨(t.settleEvent_lasts e).trans hlasts, hrest.trans hlog⟩
  obtain ⟨hlasts, hlog⟩ := hfold s.events.pending { s with events := { s.events with pending := [] } }
  rw [settle_eq]
  exact ⟨⟨hlasts.length, hlasts.controllers⟩, hlog⟩

theorem Stage.settle {s : HomingSimulation α} (h : s.Stage) : s.settle.Stage := by
  obtain ⟨hdispatch, hlapse⟩ := s.settle_kept
  obtain ⟨hlasts, hlog⟩ := s.settle_frame
  exact h.lasts hlasts hdispatch hlapse fun _ ht => ht.lasts hlasts hlog

/-- How a run has ended: at the request of the host, or as something else has ended the generation. -/
def Concluded (s : HomingSimulation α) (stoppedByHost : Bool) : Prop :=
  stoppedByHost = true ∧ s.dispatch.trigger = none ∧ s.lapse = none ∨
    stoppedByHost = false ∧ s.dispatch.active = false ∧ s.Stage

theorem Fresh.runFor {s last : HomingSimulation α} {scenario : Scenario α} {limit : Nat} {report : HomingReport α}
    (h : s.Fresh) (hp : s.Prepared scenario scenario.controllers) (hd : s.Distinct)
    (hrun : s.runFor limit = .ok (last, report)) :
    ∃ stoppedByHost, report = last.report stoppedByHost ∧ last.Concluded stoppedByHost := by
  obtain @⟨_, _, _, ended, stopped, stoppedByHost, -, -, hbegin, hsteps, hstopped, hdeliver⟩ := ran_of_runFor hrun
  have hended := (h.begin hp hd hbegin).steps hsteps
  refine ⟨stoppedByHost, rfl, ?_⟩
  have hb : ended.dispatch.broken ≠ true := by
    intro hbroken
    rw [Dispatch.stop, if_pos hbroken] at hstopped
    cases hstopped
  rw [Dispatch.stop, if_neg hb] at hstopped hdeliver
  by_cases hactive : ended.dispatch.active = true
  · -- nothing has ended the generation, so the host does
    rw [if_pos hactive] at hstopped hdeliver
    cases hstopped
    have hu := deliverAll_undisturbed hdeliver
    obtain ⟨hdispatch, hlapse⟩ := stopped.settle_kept
    cases hended.stage with
    | underway _ trigger lapse =>
      refine .inl ⟨rfl, ?_, ?_⟩
      · rw [hdispatch, hu.dispatch]
        exact trigger
      · rw [hlapse, hu.lapse]
        exact lapse
    | triggered event idle => simp [idle] at hactive
    | lapsed idle => simp [idle] at hactive
  · rw [if_neg hactive] at hstopped hdeliver
    cases hstopped
    cases hdeliver
    refine .inr ⟨rfl, ?_, hended.stage.settle⟩
    rw [(settle_kept ended).1]
    simpa using hactive

/-- Of a trigger, a passed expire clock and the host, exactly one has ended a run. -/
theorem Concluded.one {s : HomingSimulation α} {stoppedByHost : Bool} (h : s.Concluded stoppedByHost) :
    [(s.report stoppedByHost).trigger.isSome, (s.report stoppedByHost).lapse.isSome,
      (s.report stoppedByHost).stoppedByHost].count true = 1 := by
  rcases h with ⟨rfl, htrigger, hlapse⟩ | ⟨rfl, hidle, hstage⟩
  · simp [HomingSimulation.report, htrigger, hlapse]
  · cases hstage with
    | underway active => simp [hidle] at active
    | triggered event _ htrigger hlapse => simp [HomingSimulation.report, htrigger, hlapse]
    | lapsed _ htrigger hlapse => simp [HomingSimulation.report, htrigger, hlapse]

/-- A trigger that has ended a run has its winner, and all other controllers have been told once. -/
theorem Concluded.winner {s : HomingSimulation α} {stoppedByHost : Bool} (h : s.Concluded stoppedByHost)
    (htimed : ∀ c ∈ s.controllers, c.stopTime.isSome = c.stopped.isSome) {event : TriggerEvent α}
    (htrigger : s.dispatch.trigger = some event) :
    ∃ winner, (s.report stoppedByHost).controllers[event.endpoint]? = some winner ∧
      (s.report stoppedByHost).triggerController = some winner.name ∧ winner.stopReason = some event.reason ∧
      winner.stopTime.isSome = true ∧
      ∀ (place : Nat) (c : ControllerSummary α), (s.report stoppedByHost).controllers[place]? = some c →
        (s.messages.countP fun m => m.kind = .trigger ∧ m.controller = c.name) =
          if place = event.endpoint then 0 else 1 := by
  rcases h with ⟨-, hnone, -⟩ | ⟨-, hidle, hstage⟩
  · rw [hnone] at htrigger
    cases htrigger
  · cases hstage with
    | underway active => simp [hidle] at active
    | lapsed _ hnone => simp [hnone] at htrigger
    | triggered event' _ hsome _ hstopped htold =>
      rw [htrigger] at hsome
      cases hsome
      obtain ⟨c, hc, hreason⟩ := hstopped
      refine ⟨⟨c.scenario.name, c.stopped.map Prod.fst, c.stopTime, c.reportsSent⟩, ?_, ?_, hreason, ?_, ?_⟩
      · simp [HomingSimulation.report, hc]
      · simp [HomingSimulation.report, htrigger, hc]
      · rw [htimed c (List.mem_of_getElem? hc)]
        simpa using congrArg Option.isSome hreason
      · intro place summary hsummary
        simp only [HomingSimulation.report, List.getElem?_map] at hsummary
        obtain ⟨d, hd, rfl⟩ := Option.map_eq_some_iff.1 hsummary
        exact htold place d hd

omit [Scalar α] in
/-- Controllers that were running at first have a time at which they stopped if they have stopped. -/
theorem Fresh.timed {s s' : HomingSimulation α} (h : s.Fresh) (hl : s.Lasts s') :
    ∀ c ∈ s'.controllers, c.stopTime.isSome = c.stopped.isSome := by
  intro c hc
  obtain ⟨place, hplace⟩ := List.getElem?_of_mem hc
  obtain ⟨c₀, hc₀, hlater⟩ := hl.before hplace
  obtain ⟨hstopped, htime⟩ := h.running c₀ (List.mem_of_getElem? hc₀)
  exact hlater.timed (by simp [hstopped, htime])

/-- In a first run of an accepted scenario that has an outcome, exactly one thing has ended the generation: a
trigger, a passed expire clock or the host. If it is a trigger, the outcome names the controller that won,
which has stopped for the reason of the trigger; one trigger was sent to every other controller, and none to
the winner. In all states that the run goes through, a controller that has stopped goes on to have stopped
for the same reason, at the same clock and time. -/
theorem one_outcome {scenario : Scenario α} (hvalid : scenario.validate = .ok ())
    {initial last : HomingSimulation α} {limit : Nat} {report : HomingReport α} (hi : of? scenario = .ok initial)
    (hrun : initial.runFor limit = .ok (last, report)) :
    [report.trigger.isSome, report.lapse.isSome, report.stoppedByHost].count true = 1 ∧
    (report.controllers.map fun c => c.name) = scenario.controllers.map (fun c => c.name) ∧
    (scenario.controllers.map fun c => c.name).Nodup ∧
    (∀ event, report.trigger = some event → ∃ winner, report.controllers[event.endpoint]? = some winner ∧
      report.triggerController = some winner.name ∧ winner.stopReason = some event.reason ∧
      winner.stopTime.isSome = true ∧
      ∀ (place : Nat) (c : ControllerSummary α), report.controllers[place]? = some c →
        (last.messages.countP fun m => m.kind = .trigger ∧ m.controller = c.name) =
          if place = event.endpoint then 0 else 1) ∧
    ∃ states, initial.trail limit = .ok states ∧ states.head? = some initial ∧ states.getLast? = some last ∧
      states.Pairwise Lasts ∧
      ∀ s ∈ states, ∀ c ∈ s.controllers, c.stopTime.isSome = c.stopped.isSome := by
  have hprepared := prepared_of? hi
  have hfresh := fresh_of? hi
  have hnames : (initial.controllers.map fun c => c.scenario.name) = scenario.controllers.map fun c => c.name := by
    rw [← hprepared.scenarios, List.map_map]
    rfl
  have hdistinct : initial.Distinct := by
    unfold Distinct
    exact hnames ▸ Scenario.names_of_validate hvalid
  obtain ⟨states, hstates, hchain, hhead, hlast⟩ := trail_of_runFor hrun
  have hpairwise : states.Pairwise Lasts := List.isChain_iff_pairwise.1 hchain
  have hall : ∀ s ∈ states, initial.Lasts s := by
    obtain ⟨rest, rfl⟩ := List.head?_eq_some_iff.1 hhead
    exact List.forall_mem_cons.2 ⟨lasts_of_eq rfl, (List.pairwise_cons.1 hpairwise).1⟩
  have hlasts := hall last (List.mem_of_getLast? hlast)
  obtain ⟨stoppedByHost, rfl, hend⟩ := hfresh.runFor hprepared hdistinct hrun
  refine ⟨hend.one, ?_, Scenario.names_of_validate hvalid, fun event => hend.winner (hfresh.timed hlasts), states,
    hstates, hhead, hlast, hpairwise, fun s hs => hfresh.timed (hall s hs)⟩
  rw [← hnames, ← hlasts.names]
  simp [HomingSimulation.report]

/-- The endstop of one of two controllers closes, and the other one is told. -/
theorem one_outcome_told : ∃ initial last report, (lateTrigger 0.2).validate = .ok () ∧
    of? (lateTrigger 0.2) = .ok initial ∧ initial.runFor 40 = .ok (last, report) ∧
    [report.trigger.isSome, report.lapse.isSome, report.stoppedByHost].count true = 1 ∧
    report.trigger.map (fun event => (event.endpoint, event.reason)) = some (0, Reason.endstopHit) ∧
    report.controllers.map (fun c => (c.name, c.stopReason)) =
      [("mcu", some Reason.endstopHit), ("toolboard", some Reason.endstopHit)] ∧
    (last.messages.countP fun m => m.kind = .trigger ∧ m.controller = "mcu") = 0 ∧
    (last.messages.countP fun m => m.kind = .trigger ∧ m.controller = "toolboard") = 1 ∧
    ∃ states, initial.trail 40 = .ok states ∧ states.Pairwise Lasts := by
  have hi := ok_of_isSome (x := of? (lateTrigger 0.2)) (by decide +kernel)
  have hrun := ok_of_isSome (x := ((of? (lateTrigger 0.2)).toOption.get (by decide +kernel)).runFor 40)
    (by decide +kernel)
  obtain ⟨hone, -, -, -, states, hstates, -, -, hlasts, -⟩ := one_outcome (by decide +kernel) hi hrun
  exact ⟨_, _, _, by decide +kernel, hi, hrun, hone, by decide +kernel, by decide +kernel, by decide +kernel,
    by decide +kernel, states, hstates, hlasts⟩

end HomingSimulation

end PrinterMotion
