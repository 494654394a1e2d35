/-
The states that a run goes through. Controllers stay at their places in all of them, and one that has stopped
has stopped for good: nothing changes its reason, its clock or its time any more.
-/
import PrinterMotion.Proofs.Simulation.Delivery

namespace PrinterMotion

variable {α : Type}

/-! ## Controllers -/

namespace SimulatedController

/-- A controller later in the simulation: if it had stopped, it has stopped as before, at the same time. -/
structure Lasts (c c' : SimulatedController α) : Prop where
  becomes : c.Becomes c'
  period : c'.period = c.period
  stopTime : c.stopped.isSome = true → c'.stopTime = c.stopTime
  timed : c.stopTime.isSome = c.stopped.isSome → c'.stopTime.isSome = c'.stopped.isSome

theorem Lasts.refl (c : SimulatedController α) : c.Lasts c := ⟨.refl c, rfl, fun _ => rfl, fun h => h⟩

theorem Lasts.trans {a b c : SimulatedController α} (h : a.Lasts b) (h' : b.Lasts c) : a.Lasts c := by
  refine ⟨h.becomes.trans h'.becomes, h'.period.trans h.period, fun hs => ?_, fun ht => h'.timed (h.timed ht)⟩
  obtain ⟨x, hx⟩ := Option.isSome_iff_exists.1 hs
  have hb : b.stopped.isSome = true := by
    rw [h.becomes.stopped x hx]
    rfl
  exact (h'.stopTime hb).trans (h.stopTime hs)

/-- Nothing has changed but what the controller was told and how often it has reported. -/
theorem lasts_of_eq {c c' : SimulatedController α} (hb : c.Becomes c') (hp : c'.period = c.period)
    (hs : c'.stopped = c.stopped) (ht : c'.stopTime = c.stopTime) : c.Lasts c' :=
  ⟨hb, hp, fun _ => ht, fun h => by rw [hs, ht, h]⟩

theorem lasts_stop (c : SimulatedController α) (reason : Reason) (clock : UInt64) (time : α) :
    c.Lasts (c.stop reason clock time) := by
  refine ⟨c.becomes_stop reason clock time, ?_, ?_, ?_⟩ <;> unfold stop
  · split <;> rfl
  · intro hs
    rw [if_pos hs]
  · intro ht
    split
    · exact ht
    · rfl

theorem lasts_watch [Scalar α] (c : SimulatedController α) (time : α) : c.Lasts (c.watch time) := by
  unfold watch
  split
  · split
    · split
      · exact c.lasts_stop _ _ _
      · exact .refl c
    · exact .refl c
  · exact .refl c

end SimulatedController

/-- Whether an event is the arrival of a report at a point in time. -/
def Scheduled.arrivesAt (time : Instant) (e : Scheduled SimulationEvent) : Bool :=
  e.time == time && e.event.isArrival

theorem Scheduled.arrivesAt_iff {time : Instant} {e : Scheduled SimulationEvent} :
    e.arrivesAt time = true ↔ e.time = time ∧ e.event.isArrival = true := by
  rw [arrivesAt, Bool.and_eq_true, beq_iff_eq]

theorem SimulationEvent.eq_arrival {event : SimulationEvent} {x : Nat × StatusReport} (h : event.arrival? = some x) :
    event = .arrival x.1 x.2 := by
  cases event <;> cases h
  rfl

namespace HomingSimulation

/-- Controllers stay at their places, and those that had stopped have stopped as before. -/
structure Lasts (s s' : HomingSimulation α) : Prop where
  length : s'.controllers.length = s.controllers.length
  controllers : ∀ (place : Nat) (c : SimulatedController α), s.controllers[place]? = some c →
    ∃ c', s'.controllers[place]? = some c' ∧ c.Lasts c'

theorem lasts_of_eq {s s' : HomingSimulation α} (h : s'.controllers = s.controllers) : s.Lasts s' :=
  ⟨congrArg List.length h, fun _ c hc => ⟨c, h ▸ hc, .refl c⟩⟩

theorem Lasts.trans {a b c : HomingSimulation α} (h : a.Lasts b) (h' : b.Lasts c) : a.Lasts c := by
  refine ⟨h'.length.trans h.length, fun place x hx => ?_⟩
  obtain ⟨y, hy, hxy⟩ := h.controllers place x hx
  obtain ⟨z, hz, hyz⟩ := h'.controllers place y hy
  exact ⟨z, hz, hxy.trans hyz⟩

instance : Trans (Lasts : HomingSimulation α → HomingSimulation α → Prop) Lasts Lasts := ⟨Lasts.trans⟩

/-- Where a controller is, there was one before that has become it. -/
theorem Lasts.before {s s' : HomingSimulation α} (h : s.Lasts s') {place : Nat} {c' : SimulatedController α}
    (hc' : s'.controllers[place]? = some c') : ∃ c, s.controllers[place]? = some c ∧ c.Lasts c' := by
  have hlt : place < s.controllers.length := h.length ▸ (List.getElem?_eq_some_iff.1 hc').1
  obtain ⟨c'', hc'', hlasts⟩ := h.controllers place _ (List.getElem?_eq_getElem hlt)
  rw [hc'] at hc''
  cases hc''
  exact ⟨_, List.getElem?_eq_getElem hlt, hlasts⟩

theorem lasts_setController {s : HomingSimulation α} {q : Nat} {c c' : SimulatedController α}
    (hq : s.controllers[q]? = some c) (h : c.Lasts c') : s.Lasts (s.setController q c') := by
  refine ⟨List.length_set, fun place d hd => ?_⟩
  by_cases hp : q = place
  · subst hp
    rw [hq] at hd
    cases hd
    exact ⟨c', List.getElem?_set_self (List.getElem?_eq_some_iff.1 hq).1, h⟩
  · exact ⟨d, by rw [setController, List.getElem?_set_ne hp, hd], .refl d⟩

theorem Lasts.names {s s' : HomingSimulation α} (h : s.Lasts s') :
    (s'.controllers.map fun c => c.scenario.name) = s.controllers.map fun c => c.scenario.name := by
  refine List.ext_getElem? fun place => ?_
  simp only [List.getElem?_map]
  cases hc : s'.controllers[place]? with
  | none =>
    rw [List.getElem?_eq_none_iff, h.length, ← List.getElem?_eq_none_iff] at hc
    rw [hc]
  | some c' =>
    obtain ⟨c, hc, hlasts⟩ := h.before hc
    rw [hc, Option.map_some, Option.map_some, hlasts.becomes.scenario]

/-! ## Events -/

theorem mem_underway {s : HomingSimulation α} {place : Nat} {x : Instant × StatusReport} :
    x ∈ s.underway place ↔ ∃ e ∈ s.events.pending, e.event = .arrival place x.2 ∧ e.time = x.1 := by
  have hreport : ∀ (event : SimulationEvent) (r : StatusReport),
      event.reportFrom? place = some r ↔ event = .arrival place r := by
    intro event r
    cases event <;> simp [SimulationEvent.reportFrom?]
  simp only [underway, reportsFrom, List.mem_filterMap, Option.map_eq_some_iff, hreport]
  constructor
  · rintro ⟨e, he, r, hr, rfl⟩
    exact ⟨e, he, hr, rfl⟩
  · rintro ⟨e, he, hr, ht⟩
    exact ⟨e, he, x.2, hr, by rw [ht]⟩

variable [Scalar α]

theorem sendReport_lasts {s s' : HomingSimulation α} {q : Nat} {c c' : SimulatedController α}
    (hq : s.controllers[q]? = some c) (hl : c.Lasts c') (h : s.sendReport q c' = .ok s') : s.Lasts s' := by
  rcases sendReport_eq_ok h with ⟨-, rfl⟩ | rfl
  · exact lasts_setController hq hl
  · have hcount : c'.Lasts { c' with reportsSent := c'.reportsSent + 1 } :=
      SimulatedController.lasts_of_eq ⟨rfl, rfl, rfl, fun _ hx => hx⟩ rfl rfl rfl
    have hset := lasts_setController hq (hl.trans hcount)
    exact ⟨hset.length, hset.controllers⟩

theorem obey_lasts (s : HomingSimulation α) (q : Nat) (command : Command) : s.Lasts (s.obey q command) := by
  unfold obey
  split
  · exact lasts_of_eq rfl
  · rename_i c hq
    split
    · exact lasts_setController hq (SimulatedController.lasts_of_eq ⟨rfl, rfl, rfl, fun _ hx => hx⟩ rfl rfl rfl)
    · exact lasts_setController hq (c.lasts_stop _ _ _)

theorem happen_lasts {s s' : HomingSimulation α} {time : Instant} {event : SimulationEvent}
    (h : s.happen time event = .ok s') : s.Lasts s' := by
  cases event with
  | sample q =>
    simp only [happen] at h
    split at h
    · cases h
      exact lasts_of_eq rfl
    · rename_i c hq
      obtain ⟨s₁, hsend, h⟩ := bind_eq_ok.1 h
      have hsent := sendReport_lasts hq (c.lasts_watch s.seconds) hsend
      split at h
      · obtain ⟨next, -, h⟩ := bind_eq_ok.1 h
        cases h
        exact hsent.trans (lasts_of_eq rfl)
      · cases h
        exact hsent
  | endstop q =>
    simp only [happen] at h
    split at h
    · cases h
      exact lasts_of_eq rfl
    · rename_i c hq
      exact sendReport_lasts hq (c.lasts_stop _ _ _) h
  | arrival q report =>
    simp only [happen] at h
    obtain ⟨-, hcontrollers, -⟩ := receive_handles h
    exact lasts_of_eq hcontrollers
  | order q command =>
    cases h
    exact s.obey_lasts q command

theorem step_lasts {s s' : HomingSimulation α} {finish : Instant} {more : Bool}
    (h : s.step finish = .ok (more, s')) : s.Lasts s' := by
  cases hp : s.events.pending with
  | nil =>
    simp only [step, EventQueue.pop, hp] at h
    cases h
    exact lasts_of_eq rfl
  | cons e rest =>
    rw [step_eq hp] at h
    split at h
    · cases h
      exact lasts_of_eq rfl
    · split at h
      · rename_i s'' hh
        cases h
        have hready : s.Lasts (s.ready e rest) := lasts_of_eq rfl
        exact hready.trans (happen_lasts hh)
      · cases h

theorem begin_lasts {s s' : HomingSimulation α} {start : Instant} (h : s.begin start = .ok s') : s.Lasts s' := by
  obtain ⟨-, s₁, hdeliver, h⟩ := begin_eq_ok h
  have hu := (deliverAll_undisturbed hdeliver).trans (foldlM_undisturbed scheduleController_undisturbed h)
  exact lasts_of_eq hu.controllers

/-! ## Runs -/

/-- The states from one on that events lead to, up to `finish`. -/
def eventStates (finish : Instant) : Nat → HomingSimulation α → List (HomingSimulation α)
  | 0, s => [s]
  | fuel + 1, s => s :: match s.step finish with
    | .ok (true, s') => eventStates finish fuel s'
    | .ok (false, s') => [s']
    | .error _ => []

/-- Lets a pending command arrive. -/
def settleEvent (s : HomingSimulation α) (e : Scheduled SimulationEvent) : HomingSimulation α :=
  match e.event with
  | .order place command => { s with clock := s.clock.advance e.time }.obey place command
  | _ => s

theorem settle_eq (s : HomingSimulation α) :
    s.settle = s.events.pending.foldl settleEvent { s with events := { s.events with pending := [] } } := rfl

theorem settleEvent_lasts (s : HomingSimulation α) (e : Scheduled SimulationEvent) : s.Lasts (s.settleEvent e) := by
  unfold settleEvent
  split
  · rename_i place command _
    have hobey := obey_lasts { s with clock := s.clock.advance e.time } place command
    exact ⟨hobey.length, hobey.controllers⟩
  · exact lasts_of_eq rfl

/-- The states that a run goes through in turn: the one that it starts from, those that events lead to, and
those in which the commands arrive that are under way when the host has stopped the dispatch. -/
def trail (limit : Nat) (s : HomingSimulation α) : Except SimulationFailure (List (HomingSimulation α)) := do
  let start ← inTime (Instant.ofSeconds? s.scenario.simulation.startTime)
  let finish ← inTime (Instant.ofSeconds? s.scenario.simulation.duration)
  let begun ← s.begin start
  let ended ← steps finish limit begun
  let (dispatch, posts, _) := ended.dispatch.stop
  let stopped ← { ended with dispatch }.deliverAll posts
  return (s :: begun.eventStates finish limit) ++ (stopped :: stopped.events.pending.scanl settleEvent
    { stopped with events := { stopped.events with pending := [] } })

theorem eventStates_head (finish : Instant) (fuel : Nat) (s : HomingSimulation α) :
    ∃ rest, s.eventStates finish fuel = s :: rest := by
  cases fuel with
  | zero => exact ⟨[], rfl⟩
  | succ fuel => exact ⟨_, rfl⟩

theorem eventStates_chain (finish : Instant) : ∀ (fuel : Nat) (s : HomingSimulation α),
    (s.eventStates finish fuel).IsChain Lasts
  | 0, s => List.IsChain.singleton s
  | fuel + 1, s => by
    rw [eventStates]
    split
    · rename_i s' hs
      have ih := eventStates_chain finish fuel s'
      obtain ⟨rest, hrest⟩ := eventStates_head finish fuel s'
      rw [hrest] at ih ⊢
      exact List.isChain_cons_cons.2 ⟨step_lasts hs, ih⟩
    · rename_i s' hs
      exact List.isChain_cons_cons.2 ⟨step_lasts hs, List.IsChain.singleton s'⟩
    · exact List.IsChain.singleton s

theorem eventStates_last {finish : Instant} : ∀ {fuel : Nat} {s s' : HomingSimulation α},
    steps finish fuel s = .ok s' → (s.eventStates finish fuel).getLast? = some s'
  | 0, _, _, h => by cases h
  | fuel + 1, s, s', h => by
    rw [steps] at h
    rw [eventStates]
    split at h
    · cases h
    · rename_i s₁ hs
      cases h
      rw [hs]
      rfl
    · rename_i s₁ hs
      have ih := eventStates_last h
      obtain ⟨rest, hrest⟩ := eventStates_head finish fuel s₁
      rw [hrest] at ih
      simp only [hs, hrest, List.getLast?_cons_cons, ih]

theorem scanl_chain : ∀ (pending : List (Scheduled SimulationEvent)) (s : HomingSimulation α),
    (pending.scanl settleEvent s).IsChain Lasts
  | [], s => List.IsChain.singleton s
  | e :: rest, s => by
    rw [List.scanl_cons]
    refine List.isChain_cons.2 ⟨fun s' hs' => ?_, scanl_chain rest (s.settleEvent e)⟩
    rw [List.head?_scanl] at hs'
    cases hs'
    exact s.settleEvent_lasts e

/-- A run that has an outcome goes from state to state, and ends in the last of them. -/
theorem trail_of_runFor {s last : HomingSimulation α} {limit : Nat} {report : HomingReport α}
    (h : s.runFor limit = .ok (last, report)) :
    ∃ states, s.trail limit = .ok states ∧ states.IsChain Lasts ∧ states.head? = some s ∧
      states.getLast? = some last := by
  obtain @⟨start, finish, begun, ended, stopped, stoppedByHost, hstart, hfinish, hbegun, hsteps, -, hdeliver⟩ :=
    ran_of_runFor h
  have hu := deliverAll_undisturbed hdeliver
  obtain ⟨rest, hrest⟩ := eventStates_head finish limit begun
  refine ⟨(s :: begun.eventStates finish limit) ++ (stopped :: stopped.events.pending.scanl settleEvent
    { stopped with events := { stopped.events with pending := [] } }), ?_, ?_, rfl, ?_⟩
  · simp only [trail, hstart, hfinish, hbegun, hsteps, bind, Except.bind, hdeliver]
    rfl
  · refine List.isChain_append.2 ⟨?_, ?_, fun x hx y hy => ?_⟩
    · rw [List.isChain_cons]
      refine ⟨fun x hx => ?_, eventStates_chain finish limit begun⟩
      rw [hrest] at hx
      cases hx
      exact begin_lasts hbegun
    · refine List.isChain_cons.2 ⟨fun x hx => ?_, scanl_chain _ _⟩
      rw [List.head?_scanl] at hx
      cases hx
      exact lasts_of_eq rfl
    · -- the host stops the dispatch, which sends commands but changes no controller
      have hended := eventStates_last hsteps
      rw [hrest] at hx hended
      rw [List.getLast?_cons_cons, hended] at hx
      cases hx
      cases hy
      exact lasts_of_eq hu.controllers
  · rw [List.getLast?_append_of_ne_nil _ (List.cons_ne_nil _ _), List.getLast?_cons,
      List.getLast?_scanl, settle_eq]
    rfl

end HomingSimulation

end PrinterMotion
