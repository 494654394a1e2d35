/-
Simulations that go on. Where every time comes before the end of time and every clock has room in its
counter, no event fails; and where controllers wait between reports, events come to an end: each one takes
more off the load of what is still to happen than it puts on. Reports that arrive together were sent at
one time, so the dispatch goes by clocks that controllers have read, whatever has been lost in between.
-/
import Mathlib.Data.List.TakeWhile
import PrinterMotion.Proofs.Simulation.Trail
import PrinterMotion.Proofs.Trsync.Room

namespace PrinterMotion

variable {α : Type}

/-! ## Times and clocks -/

/-- The clocks and latencies of controllers by their places, with bounds for the readings of the clocks up
to a point in time. -/
structure Timetable (α : Type) where
  horizon : Instant
  clock : Nat → ClockEstimate α
  latency : Nat → Instant
  bound : Nat → Nat

namespace Timetable

variable [Scalar α]

/-- What the controller at a place reads at a point in time. -/
def reading (T : Timetable α) (place : Nat) (t : Instant) : UInt64 := (T.clock place).ofTime (Instant.seconds t)

/-- A controller as the timetable has it: its clock goes on and stays within the bound, its messages and
reports come before the end of time, and it waits between reports. -/
structure Fits (T : Timetable α) (place : Nat) (c : SimulatedController α) : Prop where
  clock : c.clock = T.clock place
  latency : c.latency = T.latency place
  arrives : T.horizon + c.latency < Instant.limit
  returns : T.horizon + c.period < Instant.limit
  waits : 0 < c.period
  mono : ∀ {t t' : Instant}, t ≤ t' → t' ≤ T.horizon →
    (T.reading place t).toNat ≤ (T.reading place t').toNat
  bounded : ∀ {t : Instant}, t ≤ T.horizon → (T.reading place t).toNat ≤ T.bound place

theorem Fits.lasts {T : Timetable α} {place : Nat} {c c' : SimulatedController α} (h : T.Fits place c)
    (hl : c.Lasts c') : T.Fits place c' := by
  refine ⟨hl.becomes.clock.trans h.clock, hl.becomes.latency.trans h.latency, ?_, ?_, ?_, h.mono, h.bounded⟩
  · rw [hl.becomes.latency]
    exact h.arrives
  · rw [hl.period]
    exact h.returns
  · rw [hl.period]
    exact h.waits

end Timetable

/-! ## What is still to happen -/

/-- How much may still come of an event that happens up to `finish`, among `n` controllers: an order is
obeyed; a report is answered by orders; an endstop that closes is reported; and a controller that samples its
state reports it, and may do so again until `finish`. -/
def Scheduled.weight (finish : Instant) (n : Nat) (e : Scheduled SimulationEvent) : Nat :=
  match e.event with
  | .order .. => 1
  | .arrival .. => n + 2
  | .endstop _ => n + 3
  | .sample _ => (finish + 1 - e.time) * (n + 4)

namespace HomingSimulation

/-- The weight of all that is pending. -/
def load (finish : Instant) (s : HomingSimulation α) : Nat :=
  (s.events.pending.map (Scheduled.weight finish s.controllers.length)).sum

theorem load_schedule (finish : Instant) (s : HomingSimulation α) (time : Instant) (event : SimulationEvent) :
    (s.schedule time event).load finish =
      Scheduled.weight finish s.controllers.length ⟨time, s.events.nextNumber, event⟩ + s.load finish := by
  have hperm := (EventQueue.insert_perm ⟨time, s.events.nextNumber, event⟩ s.events.pending).map
    (Scheduled.weight finish s.controllers.length)
  exact hperm.sum_eq

/-- A simulation that goes on within a timetable: no clock known to the dispatch is far ahead of what its
controller read at the time `since`, and no report under way was sent before that. -/
structure Paced [Scalar α] (s : HomingSimulation α) (T : Timetable α) (since : Nat → Instant) : Prop where
  unbroken : s.dispatch.broken = false
  length : s.dispatch.endpoints.length = s.controllers.length
  now_le : s.clock.now ≤ T.horizon
  since_le : ∀ place, since place ≤ s.clock.now
  sorted : EventQueue.Sorted s.events.pending
  controllers : ∀ place c, s.controllers[place]? = some c → T.Fits place c
  reports : ∀ place, ∀ x ∈ s.underway place, since place + T.latency place ≤ x.1 ∧
    (x.2.canTrigger = true → ∃ t, x.1 = t + T.latency place ∧ x.2.clock = Clock.low (T.reading place t))
  ample : s.dispatch.active = true → s.dispatch.Ample T.bound fun place => T.reading place (since place)

variable [Scalar α] {T : Timetable α} {since : Nat → Instant}

/-- Time goes on, and controllers and events change as the timetable has it. -/
theorem Paced.lasts {s s' : HomingSimulation α} (h : s.Paced T since) (hl : s.Lasts s')
    (hd : s'.dispatch = s.dispatch) (hclock : s.clock.now ≤ s'.clock.now) (hnow : s'.clock.now ≤ T.horizon)
    (hsorted : EventQueue.Sorted s'.events.pending)
    (hreports : ∀ place, ∀ x ∈ s'.underway place, x ∈ s.underway place ∨
      since place + T.latency place ≤ x.1 ∧
      (x.2.canTrigger = true → ∃ t, x.1 = t + T.latency place ∧ x.2.clock = Clock.low (T.reading place t))) :
    s'.Paced T since := by
  refine ⟨hd ▸ h.unbroken, ?_, hnow, fun place => (h.since_le place).trans hclock, hsorted,
    fun place c' hc' => ?_, fun place x hx => ?_, hd ▸ h.ample⟩
  · rw [hd, hl.length, h.length]
  · obtain ⟨c, hc, hlasts⟩ := hl.before hc'
    exact (h.controllers place c hc).lasts hlasts
  · rcases hreports place x hx with hold | hnew
    · exact h.reports place x hold
    · exact hnew

theorem Paced.undisturbed {s s' : HomingSimulation α} (h : s.Paced T since) (hu : s.Undisturbed s') :
    s'.Paced T since := by
  refine h.lasts (lasts_of_eq hu.controllers) hu.dispatch ?_ ?_ (hu.sorted h.sorted) fun place x hx => .inl ?_
  · rw [hu.clock]
  · rw [hu.clock]
    exact h.now_le
  · exact hu.underway place ▸ hx

/-! ## Commands -/

omit [Scalar α] in
theorem inTime_add {t d : Instant} (h : t + d < Instant.limit) : inTime (Instant.add? t d) = .ok (t + d) := by
  rw [Instant.add?, if_pos h]
  rfl

theorem Paced.deliver (finish : Instant) {s : HomingSimulation α} (h : s.Paced T since) (p : Post) :
    ∃ s', s.deliver p = .ok s' ∧ s'.load finish ≤ s.load finish + 1 := by
  unfold HomingSimulation.deliver
  split
  · exact ⟨s, rfl, Nat.le_succ _⟩
  · rename_i c hc
    have harrives := (h.controllers _ c hc).arrives
    have htime := inTime_add ((Nat.add_le_add_right h.now_le c.latency).trans_lt harrives)
    refine ⟨_, by rw [htime]; rfl, ?_⟩
    rw [load_schedule, Nat.add_comm]
    exact Nat.le_refl _

theorem Paced.deliverAll (finish : Instant) : ∀ (posts : List Post) {s : HomingSimulation α}, s.Paced T since →
    ∃ s', s.deliverAll posts = .ok s' ∧ s'.Paced T since ∧ s'.load finish ≤ s.load finish + posts.length
  | [], s, h => ⟨s, rfl, h, Nat.le_refl _⟩
  | p :: posts, s, h => by
    obtain ⟨s₁, hp, hload₁⟩ := h.deliver finish p
    obtain ⟨s', hposts, h', hload⟩ := Paced.deliverAll finish posts (h.undisturbed (deliver_undisturbed hp))
    refine ⟨s', ?_, h', ?_⟩
    · rw [HomingSimulation.deliverAll, List.foldlM_cons, hp]
      exact hposts
    · rw [List.length_cons]
      omega

/-! ## Events -/

variable (finish : Instant)

/-- A report that arrives before the end of time can be sent. -/
theorem exists_sendReport {s : HomingSimulation α} {c : SimulatedController α} (q : Nat)
    (h : s.clock.now + c.latency < Instant.limit) : ∃ s', s.sendReport q c = .ok s' := by
  simp only [HomingSimulation.sendReport, inTime_add h, bind, Except.bind]
  split <;> exact ⟨_, rfl⟩

theorem Paced.sendReport {s : HomingSimulation α} {q : Nat} {c c' : SimulatedController α} (h : s.Paced T since)
    (hq : s.controllers[q]? = some c) (hl : c.Lasts c') :
    ∃ s', s.sendReport q c' = .ok s' ∧ s'.Paced T since ∧
      s'.load finish ≤ s.load finish + (s.controllers.length + 2) := by
  have hfits := (h.controllers q c hq).lasts hl
  obtain ⟨s', hs⟩ := exists_sendReport q ((Nat.add_le_add_right h.now_le c'.latency).trans_lt hfits.arrives)
  have hlasts := sendReport_lasts hq hl hs
  refine ⟨s', hs, ?_⟩
  rcases sendReport_eq_ok hs with ⟨-, rfl⟩ | rfl
  · refine ⟨h.lasts hlasts rfl (Nat.le_refl _) h.now_le h.sorted fun place x hx => .inl hx, ?_⟩
    simp [load, setController]
  · refine ⟨h.lasts hlasts rfl (Nat.le_refl _) h.now_le (EventQueue.sorted_insert _ h.sorted)
      fun place x hx => ?_, ?_⟩
    · obtain ⟨e, he, hr, ht⟩ := mem_underway.1 hx
      rcases EventQueue.mem_insert.1 he with rfl | he
      · -- the new report tells the clock that its controller reads now
        right
        obtain ⟨rfl, hreport⟩ := SimulationEvent.arrival.inj hr
        rw [hfits.latency] at ht
        refine ⟨?_, fun hcan => ⟨s.clock.now, ht.symm, ?_⟩⟩
        · rw [← ht]
          exact Nat.add_le_add_right (h.since_le q) _
        rw [← hreport] at hcan ⊢
        cases hstopped : c'.stopped with
        | some x => simp [SimulatedController.reportAt, hstopped] at hcan
        | none =>
          simp only [SimulatedController.reportAt, hstopped, SimulatedController.clockAt, hfits.clock]
          rfl
      · exact .inl (mem_underway.2 ⟨e, he, hr, ht⟩)
    · rw [load_schedule]
      simp [load, setController, Scheduled.weight, Nat.add_comm]

/-- The dispatch alone changes. -/
theorem Paced.redispatch {s t : HomingSimulation α} (h : s.Paced T since)
    (hcontrollers : t.controllers = s.controllers) (hevents : t.events = s.events) (hclock : t.clock = s.clock)
    (hb : t.dispatch.broken = false)
    (hlen : t.dispatch.endpoints.length = s.dispatch.endpoints.length)
    (hample : t.dispatch.active = true → t.dispatch.Ample T.bound fun place => T.reading place (since place)) :
    t.Paced T since := by
  refine ⟨hb, ?_, hclock ▸ h.now_le, hclock ▸ h.since_le, hevents ▸ h.sorted, hcontrollers ▸ h.controllers,
    fun place x hx => ?_, hample⟩
  · rw [hlen, hcontrollers, h.length]
  · rw [HomingSimulation.underway, hevents] at hx
    exact h.reports place x hx

/-- What a batch of reports of clocks that were read does to the dispatch. -/
theorem Paced.batch {s : HomingSimulation α} (h : s.Paced T since) {us : List StatusUpdate}
    (hus : ∀ u ∈ us, Dispatch.Tells u fun place => T.reading place (since place)) :
    (s.dispatch.batch us).2.2 ≠ .error .clockOverflow ∧
      (s.dispatch.batch us).2.1.length ≤ us.length + s.controllers.length ∧
      ((s.dispatch.batch us).1.active = true →
        (s.dispatch.batch us).1.Ample T.bound fun place => T.reading place (since place)) := by
  by_cases hactive : s.dispatch.active = true
  · rw [← h.length]
    exact (h.ample hactive).batch h.unbroken hus
  · have hidle : (s.dispatch.active && s.dispatch.canTrigger) = false := by simp [hactive]
    rw [Dispatch.batch_idle h.unbroken hidle]
    exact ⟨by simp, Nat.zero_le _, fun ha => absurd ha hactive⟩

theorem Paced.receive {s : HomingSimulation α} (h : s.Paced T since) {arrivals : List (Nat × StatusReport)}
    (htells : ∀ x ∈ arrivals, x.2.canTrigger = true → x.2.clock = Clock.low (T.reading x.1 (since x.1))) :
    ∃ s', s.receive arrivals = .ok s' ∧ s'.Paced T since ∧
      s'.load finish ≤ s.load finish + arrivals.length + s.controllers.length := by
  unfold HomingSimulation.receive
  generalize husdef : (List.map _ arrivals : List StatusUpdate) = us
  dsimp only
  have hus : ∀ u ∈ us, Dispatch.Tells u fun place => T.reading place (since place) := by
    intro u hu place hplace hcan
    rw [← husdef] at hu
    obtain ⟨x, hx, rfl⟩ := List.mem_map.1 hu
    cases hplace
    exact htells x hx hcan
  obtain ⟨hroom, hlen, hample⟩ := h.batch hus
  have hb := Dispatch.batch_unbroken h.unbroken hroom
  have hsame : (s.dispatch.batch us).1.endpoints.length = s.dispatch.endpoints.length := by
    simpa using congrArg List.length (s.dispatch.batch_address us)
  have hcount : us.length = arrivals.length := by rw [← husdef, List.length_map]
  rw [hcount] at hlen
  -- whatever the answer is, the commands are delivered
  have answered : ∀ (t : HomingSimulation α), t.dispatch = (s.dispatch.batch us).1 →
      t.controllers = s.controllers → t.events = s.events → t.clock = s.clock →
      ∃ s', t.deliverAll (s.dispatch.batch us).2.1 = .ok s' ∧ s'.Paced T since ∧
        s'.load finish ≤ s.load finish + arrivals.length + s.controllers.length := by
    intro t hd hc he hk
    have ht : t.Paced T since := h.redispatch hc he hk (hd ▸ hb) (hd ▸ hsame) (hd ▸ hample)
    obtain ⟨s', hs', hpaced, hload⟩ := ht.deliverAll finish (s.dispatch.batch us).2.1
    refine ⟨s', hs', hpaced, hload.trans ?_⟩
    rw [HomingSimulation.load, he, hc, Nat.add_assoc]
    exact Nat.add_le_add_left hlen _
  cases hanswer : (s.dispatch.batch us).2.2 with
  | ok outcomes => exact answered _ rfl rfl rfl rfl
  | error e =>
    rcases Dispatch.batch_eq_error h.unbroken hanswer with rfl | ⟨oid, clock, expire, rfl⟩
    · exact absurd hanswer hroom
    · exact answered _ rfl rfl rfl rfl

/-! ## Time that goes on -/

omit [Scalar α] in
theorem max_sub_add_le {a t l x : Nat} (h : a + l ≤ x) (ht : t ≤ x) : max a (t - l) + l ≤ x := by omega

/-- No report that is still to arrive was sent earlier than one that arrives now. -/
theorem Paced.advance {s : HomingSimulation α} (h : s.Paced T since) {t : Instant} (ht : t ≤ s.clock.now)
    (hlate : ∀ e ∈ s.events.pending, t ≤ e.time) :
    s.Paced T fun place => max (since place) (t - T.latency place) := by
  have hsince : ∀ place, max (since place) (t - T.latency place) ≤ s.clock.now := fun place =>
    max_le (h.since_le place) ((Nat.sub_le _ _).trans ht)
  refine ⟨h.unbroken, h.length, h.now_le, hsince, h.sorted, h.controllers, fun place x hx => ⟨?_, ?_⟩,
    fun hactive place ep hep => ?_⟩
  · obtain ⟨e, he, -, htime⟩ := mem_underway.1 hx
    exact max_sub_add_le (h.reports place x hx).1 (htime ▸ hlate e he)
  · exact (h.reports place x hx).2
  · -- what the controller reads later is no smaller
    have hlt : place < s.controllers.length := h.length ▸ (List.getElem?_eq_some_iff.1 hep).1
    have hfits := h.controllers place _ (List.getElem?_eq_getElem hlt)
    have hold := h.ample hactive place ep hep
    have hmono := hfits.mono (Nat.le_max_left (since place) (t - T.latency place)) ((hsince place).trans h.now_le)
    exact ⟨hfits.bounded ((hsince place).trans h.now_le), hold.near.trans_le (Nat.add_le_add_right hmono _),
      hold.expire_le, hold.expireTicks, hold.minExtend⟩

theorem Paced.ready {s : HomingSimulation α} (h : s.Paced T since) {e : Scheduled SimulationEvent}
    {rest : List (Scheduled SimulationEvent)} (hp : s.events.pending = e :: rest) (he : e.time ≤ T.horizon) :
    (s.ready e rest).Paced T since := by
  have hsorted := h.sorted
  rw [hp] at hsorted
  refine h.lasts (lasts_of_eq rfl) rfl (SimulationClock.le_advance _ _) (max_le h.now_le he)
    (List.pairwise_cons.1 hsorted).2 fun place x hx => .inl ?_
  obtain ⟨f, hf, hr, ht⟩ := mem_underway.1 hx
  exact mem_underway.2 ⟨f, by rw [hp]; exact List.mem_cons_of_mem _ hf, hr, ht⟩

omit [Scalar α] in
theorem load_ready {s : HomingSimulation α} {e : Scheduled SimulationEvent}
    {rest : List (Scheduled SimulationEvent)} (hp : s.events.pending = e :: rest) :
    s.load finish = Scheduled.weight finish s.controllers.length e + (s.ready e rest).load finish := by
  simp [load, hp, HomingSimulation.ready]

omit [Scalar α] in
/-- Reports weigh the same. -/
theorem weight_arrivals (n : Nat) : ∀ {events : List (Scheduled SimulationEvent)},
    (∀ e ∈ events, e.event.isArrival = true) →
      (events.map (Scheduled.weight finish n)).sum = events.length * (n + 2)
  | [], _ => by simp
  | e :: events, h => by
    obtain ⟨he, hrest⟩ := List.forall_mem_cons.1 h
    have hweight : Scheduled.weight finish n e = n + 2 := by
      unfold Scheduled.weight
      cases hk : e.event <;> rw [hk] at he <;> first | rfl | cases he
    rw [List.map_cons, List.sum_cons, weight_arrivals n hrest, hweight, List.length_cons]
    ring

/-- What a report that is under way tells of a running controller is the clock that it read when it was sent, which
is the time that its endpoint goes by when the report arrives. -/
theorem Paced.tells {s : HomingSimulation α} (h : s.Paced T since) {place : Nat} {time : Instant}
    {report : StatusReport} (hx : (time, report) ∈ s.underway place) (hcan : report.canTrigger = true) :
    report.clock = Clock.low (T.reading place (max (since place) (time - T.latency place))) := by
  obtain ⟨hle, hread⟩ := h.reports place _ hx
  obtain ⟨t, ht, hclock⟩ := hread hcan
  have hsent : max (since place) (time - T.latency place) = t := by
    rw [show time = t + T.latency place from ht] at hle ⊢
    rw [Nat.add_sub_cancel]
    exact Nat.max_eq_right (Nat.le_of_add_le_add_right hle)
  rw [hsent]
  exact hclock

/-- The state in which an event and the reports that arrive together with it have been taken from the queue. -/
def taken (s : HomingSimulation α) (e : Scheduled SimulationEvent) (rest : List (Scheduled SimulationEvent)) :
    HomingSimulation α :=
  { s.ready e rest with
    events := { (s.ready e rest).events with pending := rest.dropWhile (Scheduled.arrivesAt e.time) } }

/-- Those reports that stay behind were sent no earlier than those that are taken. -/
theorem Paced.taken {s : HomingSimulation α} (h : s.Paced T since) {e : Scheduled SimulationEvent}
    {rest : List (Scheduled SimulationEvent)} (hp : s.events.pending = e :: rest) (he : e.time ≤ T.horizon) :
    (s.taken e rest).Paced T fun place => max (since place) (e.time - T.latency place) := by
  have hsorted := h.sorted
  rw [hp] at hsorted
  have hadvanced := (h.ready hp he).advance (Nat.le_max_right _ _) (List.pairwise_cons.1 hsorted).1
  refine hadvanced.lasts (lasts_of_eq rfl) rfl (Nat.le_refl _) hadvanced.now_le
    (hadvanced.sorted.sublist (List.dropWhile_sublist _)) fun place x hx => .inl ?_
  obtain ⟨f, hf, hr, ht⟩ := mem_underway.1 hx
  exact mem_underway.2 ⟨f, (List.dropWhile_sublist _).subset hf, hr, ht⟩

omit [Scalar α] in
theorem load_taken (s : HomingSimulation α) (e : Scheduled SimulationEvent)
    (rest : List (Scheduled SimulationEvent)) : (s.ready e rest).load finish =
      (rest.takeWhile (Scheduled.arrivesAt e.time)).length * (s.controllers.length + 2) +
        (s.taken e rest).load finish := by
  have harrivals : ∀ f ∈ rest.takeWhile (Scheduled.arrivesAt e.time), f.event.isArrival = true := fun f hf =>
    (Scheduled.arrivesAt_iff.1 (List.mem_takeWhile_imp hf)).2
  rw [← weight_arrivals finish s.controllers.length harrivals]
  simp only [load, HomingSimulation.taken, HomingSimulation.ready]
  rw [← List.sum_append, ← List.map_append, List.takeWhile_append_dropWhile]

/-- The reports that arrive together are handled, and weigh more than the commands that come of them. -/
theorem Paced.arrive {s : HomingSimulation α} (h : s.Paced T since) {e : Scheduled SimulationEvent}
    {rest : List (Scheduled SimulationEvent)} (hp : s.events.pending = e :: rest) (he : e.time ≤ T.horizon)
    {q : Nat} {report : StatusReport} (hevent : e.event = .arrival q report) :
    ∃ s' since', (s.ready e rest).happen e.time (.arrival q report) = .ok s' ∧ s'.Paced T since' ∧
      s'.load finish < s.load finish := by
  have htells : ∀ x ∈ (q, report) :: (rest.takeWhile (Scheduled.arrivesAt e.time)).filterMap fun f => f.event.arrival?,
      x.2.canTrigger = true →
        x.2.clock = Clock.low (T.reading x.1 (max (since x.1) (e.time - T.latency x.1))) := by
    intro x hx
    have hmem : (e.time, x.2) ∈ s.underway x.1 := by
      rcases List.mem_cons.1 hx with rfl | hx
      · exact mem_underway.2 ⟨e, by rw [hp]; exact List.mem_cons_self, hevent, rfl⟩
      · obtain ⟨f, hf, hr⟩ := List.mem_filterMap.1 hx
        have htime := (Scheduled.arrivesAt_iff.1 (List.mem_takeWhile_imp hf)).1
        refine mem_underway.2 ⟨f, ?_, SimulationEvent.eq_arrival hr, htime⟩
        rw [hp]
        exact List.mem_cons_of_mem _ ((List.takeWhile_sublist _).subset hf)
    exact h.tells hmem
  obtain ⟨s', hs', hpaced, hload⟩ := (h.taken hp he).receive finish htells
  refine ⟨s', _, hs', hpaced, ?_⟩
  have hweight : Scheduled.weight finish s.controllers.length e = s.controllers.length + 2 := by
    simp only [Scheduled.weight, hevent]
  have hfew := List.length_filterMap_le (fun f : Scheduled SimulationEvent => f.event.arrival?)
    (rest.takeWhile (Scheduled.arrivesAt e.time))
  have hmany : (rest.takeWhile (Scheduled.arrivesAt e.time)).length ≤
      (rest.takeWhile (Scheduled.arrivesAt e.time)).length * (s.controllers.length + 2) :=
    Nat.le_mul_of_pos_right _ (Nat.succ_pos _)
  have hcontrollers : (s.taken e rest).controllers = s.controllers := rfl
  rw [hcontrollers, List.length_cons] at hload
  rw [load_ready finish hp, load_taken, hweight]
  omega

theorem Paced.obey {s : HomingSimulation α} (h : s.Paced T since) (q : Nat) (command : Command) :
    (s.obey q command).Paced T since ∧ (s.obey q command).load finish = s.load finish := by
  have hlasts := s.obey_lasts q command
  obtain ⟨controllers, heq⟩ := s.obey_frame q command
  rw [heq] at hlasts ⊢
  refine ⟨h.lasts hlasts rfl le_rfl h.now_le h.sorted fun _ _ hx => .inl hx, ?_⟩
  rw [load, load, hlasts.length]

variable {finish}

/-- A controller samples its state, and will do so again if the dispatch is still active. -/
theorem Paced.sample {s : HomingSimulation α} (h : s.Paced T since) {time : Instant} (htime : time ≤ finish)
    (hfinish : finish ≤ T.horizon) (q : Nat) :
    ∃ s', s.happen time (.sample q) = .ok s' ∧ s'.Paced T since ∧
      s'.load finish < (finish + 1 - time) * (s.controllers.length + 4) + s.load finish := by
  have hlater : (finish + 1 - time) * (s.controllers.length + 4) =
      (finish - time) * (s.controllers.length + 4) + (s.controllers.length + 4) := by
    rw [Nat.succ_sub htime, Nat.succ_mul]
  simp only [HomingSimulation.happen]
  cases hq : s.controllers[q]? with
  | none =>
    refine ⟨s, rfl, h, ?_⟩
    rw [hlater]
    omega
  | some c =>
    have hlasts := c.lasts_watch s.seconds
    have hfits := (h.controllers q c hq).lasts hlasts
    obtain ⟨s₁, hsend, h₁, hload₁⟩ := h.sendReport finish hq hlasts
    have hlen := (sendReport_lasts hq hlasts hsend).length
    have hnext := inTime_add ((Nat.add_le_add_right (htime.trans hfinish) _).trans_lt hfits.returns)
    simp only [hsend, hnext, bind, Except.bind]
    split
    · refine ⟨_, rfl, h₁.undisturbed (s₁.undisturbed_schedule _ rfl), ?_⟩
      -- the next sample is later, so less can come of it
      have hwaits := hfits.waits
      have hlast : finish + 1 - (time + (c.watch s.seconds).period) ≤ finish - time := by
        rw [Nat.add_comm time, Nat.sub_add_eq]
        exact Nat.sub_le_sub_right (Nat.sub_le_of_le_add (Nat.add_le_add_left hwaits finish)) time
      have hless := Nat.mul_le_mul_right (s.controllers.length + 4) hlast
      rw [load_schedule, hlen, hlater]
      simp only [Scheduled.weight]
      omega
    · refine ⟨_, rfl, h₁, ?_⟩
      rw [hlater]
      omega

/-- An event that happens leaves less to happen. -/
theorem Paced.happen {s : HomingSimulation α} (h : s.Paced T since) {e : Scheduled SimulationEvent}
    {rest : List (Scheduled SimulationEvent)} (hp : s.events.pending = e :: rest) (he : e.time ≤ finish)
    (hfinish : finish ≤ T.horizon) :
    ∃ s' since', (s.ready e rest).happen e.time e.event = .ok s' ∧ s'.Paced T since' ∧
      s'.load finish < s.load finish := by
  have hready := h.ready hp (he.trans hfinish)
  have hload := load_ready finish hp
  have hlen : (s.ready e rest).controllers.length = s.controllers.length := rfl
  cases hevent : e.event with
  | sample q =>
    obtain ⟨s', hs', h', hload'⟩ := hready.sample he hfinish q
    refine ⟨s', since, hs', h', ?_⟩
    rw [hload, Scheduled.weight, hevent]
    exact hload'
  | endstop q =>
    rw [Scheduled.weight, hevent] at hload
    simp only [HomingSimulation.happen]
    cases hq : (s.ready e rest).controllers[q]? with
    | none => exact ⟨_, since, rfl, hready, by simp only at hload; omega⟩
    | some c =>
      obtain ⟨s', hs', h', hload'⟩ := hready.sendReport finish hq (c.lasts_stop Reason.endstopHit
        (c.clockAt (s.ready e rest).seconds) (s.ready e rest).seconds)
      exact ⟨s', since, hs', h', by simp only at hload; omega⟩
  | arrival q report => exact h.arrive finish hp (he.trans hfinish) hevent
  | order q command =>
    obtain ⟨h', hload'⟩ := hready.obey finish q command
    refine ⟨_, since, rfl, h', ?_⟩
    rw [Scheduled.weight, hevent] at hload
    simp only at hload
    omega

/-- The next step succeeds. -/
theorem Paced.step {s : HomingSimulation α} (h : s.Paced T since) (hfinish : finish ≤ T.horizon) :
    (∃ s', s.step finish = .ok (false, s') ∧ s'.Paced T since) ∨
      ∃ s' since', s.step finish = .ok (true, s') ∧ s'.Paced T since' ∧ s'.load finish < s.load finish := by
  cases hp : s.events.pending with
  | nil =>
    refine .inl ⟨s, ?_, h⟩
    simp only [HomingSimulation.step, EventQueue.pop, hp]
  | cons e rest =>
    rw [step_eq hp]
    by_cases hlate : finish < e.time
    · rw [if_pos hlate]
      refine .inl ⟨_, rfl, ?_⟩
      have hsorted := h.sorted
      rw [hp] at hsorted
      refine h.lasts (lasts_of_eq rfl) rfl (Nat.le_refl _) h.now_le (List.pairwise_cons.1 hsorted).2
        fun place x hx => .inl ?_
      obtain ⟨f, hf, hr, ht⟩ := mem_underway.1 hx
      exact mem_underway.2 ⟨f, by rw [hp]; exact List.mem_cons_of_mem _ hf, hr, ht⟩
    · rw [if_neg hlate]
      obtain ⟨s', since', hs', h', hload⟩ := h.happen hp (Nat.le_of_not_lt hlate) hfinish
      exact .inr ⟨s', since', by rw [hs'], h', hload⟩

/-- Events come to an end, and every larger number of them than the load suffices. -/
theorem Paced.steps (hfinish : finish ≤ T.horizon) : ∀ (n : Nat) {s : HomingSimulation α}
    {since : Nat → Instant}, s.Paced T since → s.load finish ≤ n → ∃ s' since', s'.Paced T since' ∧
      ∀ fuel, n < fuel → steps finish fuel s = .ok s' := by
  intro n
  induction n with
  | zero =>
    intro s since h hn
    rcases h.step hfinish with ⟨s', hs', h'⟩ | ⟨s', since', -, -, hload⟩
    · refine ⟨s', since, h', fun fuel hfuel => ?_⟩
      obtain ⟨fuel, rfl⟩ := Nat.exists_eq_succ_of_ne_zero (Nat.pos_iff_ne_zero.1 hfuel)
      rw [HomingSimulation.steps, hs']
    · omega
  | succ n ih =>
    intro s since h hn
    rcases h.step hfinish with ⟨s', hs', h'⟩ | ⟨s', since', hs', h', hload⟩
    · refine ⟨s', since, h', fun fuel hfuel => ?_⟩
      obtain ⟨fuel, rfl⟩ := Nat.exists_eq_succ_of_ne_zero (Nat.pos_iff_ne_zero.1 (Nat.zero_lt_of_lt hfuel))
      rw [HomingSimulation.steps, hs']
    · obtain ⟨s'', since'', h'', hsteps⟩ := ih h' (by omega)
      refine ⟨s'', since'', h'', fun fuel hfuel => ?_⟩
      obtain ⟨fuel, rfl⟩ := Nat.exists_eq_succ_of_ne_zero (Nat.pos_iff_ne_zero.1 (Nat.zero_lt_of_lt hfuel))
      rw [HomingSimulation.steps, hs']
      exact hsteps fuel (Nat.lt_of_succ_lt_succ hfuel)

end HomingSimulation

end PrinterMotion
