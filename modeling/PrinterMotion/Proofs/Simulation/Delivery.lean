/-
What becomes of the commands of the host. A command is under way for the latency of its controller, which
obeys it when it arrives. Those that arrive behind the simulated window are obeyed once the dispatch has
been stopped, but for one: the event that ends the window is dropped, and if it is the arrival of a command,
the controller never hears of that command.
-/
import PrinterMotion.Proofs.Simulation.Trip

namespace PrinterMotion

variable {α : Type}

/-! ## Commands under way -/

/-- Whether a command arrives. -/
def SimulationEvent.isOrder : SimulationEvent → Bool
  | order .. => true
  | _ => false

/-- The command that arrives, if it is one to the controller at a place. -/
def SimulationEvent.orderTo? (place : Nat) : SimulationEvent → Option Command
  | order controller command => if controller = place then some command else none
  | _ => none

/-- The commands to a controller among events. -/
def ordersTo (place : Nat) (events : List (Scheduled SimulationEvent)) : List Command :=
  events.filterMap fun e => e.event.orderTo? place

theorem ordersTo_concat (place : Nat) (events : List (Scheduled SimulationEvent)) (e : Scheduled SimulationEvent) :
    ordersTo place (events ++ [e]) = ordersTo place events ++ (e.event.orderTo? place).toList := by
  rw [ordersTo, List.filterMap_append, ← ordersTo]
  cases h : e.event.orderTo? place <;> simp [h]

/-! ## Commands obeyed -/

namespace SimulatedController

/-- A controller that has obeyed commands in turn: it knows the expire clock it was told last, and has
stopped if it was told to. -/
structure Heeds (c : SimulatedController α) (commands : List Command) : Prop where
  expire : c.expire = ((commands.filter fun k => MessageKind.ofCommand k = .setTimeout).getLast?).map
    fun k => k.reqClock
  stopped : (∃ k ∈ commands, MessageKind.ofCommand k ≠ .setTimeout) → c.stopped.isSome = true

theorem Heeds.becomes {c c' : SimulatedController α} {commands : List Command} (h : c.Heeds commands)
    (hb : c.Becomes c') (he : c'.expire = c.expire) : c'.Heeds commands := by
  refine ⟨he.trans h.expire, fun hk => ?_⟩
  obtain ⟨x, hx⟩ := Option.isSome_iff_exists.1 (h.stopped hk)
  rw [hb.stopped x hx]
  rfl

theorem Heeds.setTimeout {c : SimulatedController α} {commands : List Command} (h : c.Heeds commands)
    {command : Command} (hk : MessageKind.ofCommand command = .setTimeout) :
    { c with expire := some command.reqClock }.Heeds (commands ++ [command]) := by
  refine ⟨by simp [hk], fun ⟨k, hmem, hne⟩ => h.stopped ⟨k, ?_, hne⟩⟩
  rcases List.mem_append.1 hmem with hmem | hmem
  · exact hmem
  · rw [List.mem_singleton.1 hmem] at hne
    exact absurd hk hne

theorem expire_stop (c : SimulatedController α) (reason : Reason) (clock : UInt64) (time : α) :
    (c.stop reason clock time).expire = c.expire ∧ (c.stop reason clock time).stopped.isSome = true := by
  unfold stop
  split
  · exact ⟨rfl, by assumption⟩
  · exact ⟨rfl, rfl⟩

theorem Heeds.stop {c : SimulatedController α} {commands : List Command} (h : c.Heeds commands)
    {command : Command} (hk : MessageKind.ofCommand command ≠ .setTimeout) (reason : Reason) (clock : UInt64)
    (time : α) : (c.stop reason clock time).Heeds (commands ++ [command]) := by
  obtain ⟨hexpire, hstopped⟩ := c.expire_stop reason clock time
  refine ⟨?_, fun _ => hstopped⟩
  rw [hexpire, h.expire, List.filter_append]
  simp [hk]

theorem expire_watch [Scalar α] (c : SimulatedController α) (time : α) : (c.watch time).expire = c.expire := by
  unfold watch
  split
  · split
    · split
      · exact (c.expire_stop _ _ _).1
      · rfl
    · rfl
  · rfl

end SimulatedController

namespace HomingSimulation

/-! ## Messages and their arrivals -/

/-- The messages of the host. -/
def sent (s : HomingSimulation α) : List (MessageRecord α) :=
  s.messages.filter fun m => m.kind.direction = "host->mcu"

variable [Scalar α]

/-- The record of the command that arrives in an event. It was sent as much earlier as the latency of its
controller says. -/
def orderRecord? (s : HomingSimulation α) (e : Scheduled SimulationEvent) : Option (MessageRecord α) :=
  match e.event with
  | .order place command =>
    (s.controllers[place]?).map fun c => commandRecord c (Instant.seconds (e.time - c.latency)) command
  | _ => none

theorem orderRecord?_of_not {s : HomingSimulation α} {e : Scheduled SimulationEvent} (h : e.event.isOrder = false) :
    s.orderRecord? e = none := by
  unfold orderRecord?
  cases he : e.event <;> first | rfl | (rw [he] at h; cases h)

/-- The messages of the host are accounted for: each belongs to one event of those that have happened or of
the others that are known, and controllers have obeyed the commands that have arrived. -/
structure Tally (s : HomingSimulation α) (happened others : List (Scheduled SimulationEvent)) : Prop where
  rows : s.sent.Perm ((happened ++ others).filterMap s.orderRecord?)
  heeds : ∀ (place : Nat) (c : SimulatedController α), s.controllers[place]? = some c →
    c.Heeds (ordersTo place happened)

theorem Tally.perm {s : HomingSimulation α} {happened others others' : List (Scheduled SimulationEvent)}
    (h : s.Tally happened others) (hp : others.Perm others') : s.Tally happened others' :=
  ⟨h.rows.trans ((hp.append_left happened).filterMap _), h.heeds⟩

/-- Events that bring no command do not count. -/
theorem tally_drop {s : HomingSimulation α} {happened before others : List (Scheduled SimulationEvent)}
    {e : Scheduled SimulationEvent} (he : e.event.isOrder = false) :
    s.Tally happened (before ++ e :: others) ↔ s.Tally happened (before ++ others) := by
  have hsame : (happened ++ (before ++ e :: others)).filterMap s.orderRecord? =
      (happened ++ (before ++ others)).filterMap s.orderRecord? := by
    simp only [List.filterMap_append, List.filterMap_cons_none (orderRecord?_of_not he)]
  constructor
  · rintro ⟨hrows, hheeds⟩
    exact ⟨hsame ▸ hrows, hheeds⟩
  · rintro ⟨hrows, hheeds⟩
    exact ⟨hsame ▸ hrows, hheeds⟩

/-- An event that brings no command. -/
theorem Tally.happen {s : HomingSimulation α} {happened before others : List (Scheduled SimulationEvent)}
    {e : Scheduled SimulationEvent} (h : s.Tally happened (before ++ e :: others)) (he : e.event.isOrder = false) :
    s.Tally (happened ++ [e]) (before ++ others) := by
  have hnone : ∀ place, e.event.orderTo? place = none := by
    intro place
    cases hk : e.event <;> first | rfl | (rw [hk] at he; cases he)
  refine ⟨?_, fun place c hc => ?_⟩
  · simpa [List.filterMap_append, orderRecord?_of_not he] using h.rows
  · rw [ordersTo_concat, hnone]
    simpa using h.heeds place c hc

theorem Tally.schedule {s : HomingSimulation α} {happened before : List (Scheduled SimulationEvent)}
    (h : s.Tally happened (before ++ s.events.pending)) (time : Instant) {event : SimulationEvent}
    (he : event.isOrder = false) :
    (s.schedule time event).Tally happened (before ++ (s.schedule time event).events.pending) := by
  have he' : (⟨time, s.events.nextNumber, event⟩ : Scheduled SimulationEvent).event.isOrder = false := he
  have hnew := ((tally_drop he').2 h).perm ((EventQueue.insert_perm _ _).symm.append_left before)
  exact ⟨hnew.rows, hnew.heeds⟩

theorem Tally.deliver {s s' : HomingSimulation α} {p : Post} {happened before : List (Scheduled SimulationEvent)}
    (h : s.Tally happened (before ++ s.events.pending)) (hs : s.deliver p = .ok s') :
    s'.Tally happened (before ++ s'.events.pending) := by
  rcases deliver_eq_ok hs with ⟨-, rfl⟩ | ⟨c, hc, rfl⟩
  · exact h
  · obtain ⟨e, he⟩ : ∃ e : Scheduled SimulationEvent,
        e = ⟨s.clock.now + c.latency, s.events.nextNumber, .order p.endpoint p.command⟩ := ⟨_, rfl⟩
    -- the command is sent now and arrives a latency later
    have hrecord : s.orderRecord? e = some (commandRecord c s.seconds p.command) := by
      simp only [he, orderRecord?, hc, Option.map_some, Nat.add_sub_cancel]
      rfl
    have hdirection : (commandRecord c s.seconds p.command).kind.direction = "host->mcu" := by
      show (MessageKind.ofCommand p.command).direction = _
      unfold MessageKind.ofCommand
      split <;> rfl
    have hsent : sent { s with log := commandRecord c s.seconds p.command :: s.log } =
        s.sent ++ [commandRecord c s.seconds p.command] := by
      simp [sent, messages, hdirection]
    refine ⟨?_, h.heeds⟩
    show (sent { s with log := commandRecord c s.seconds p.command :: s.log }).Perm
      ((happened ++ (before ++ EventQueue.insert _ s.events.pending)).filterMap s.orderRecord?)
    rw [← he, hsent]
    calc (s.sent ++ [commandRecord c s.seconds p.command]).Perm (commandRecord c s.seconds p.command :: s.sent) :=
          List.perm_append_singleton _ _
      _ |>.Perm (commandRecord c s.seconds p.command ::
            (happened ++ (before ++ s.events.pending)).filterMap s.orderRecord?) := h.rows.cons _
      _ = (e :: ((happened ++ before) ++ s.events.pending)).filterMap s.orderRecord? := by
          rw [List.filterMap_cons_some hrecord, List.append_assoc]
      _ |>.Perm (((happened ++ before) ++ e :: s.events.pending).filterMap s.orderRecord?) :=
          List.perm_middle.symm.filterMap _
      _ |>.Perm ((happened ++ (before ++ EventQueue.insert e s.events.pending)).filterMap s.orderRecord?) := by
          rw [List.append_assoc]
          exact (((EventQueue.insert_perm e _).symm.append_left before).append_left happened).filterMap _

theorem Tally.deliverAll {happened before : List (Scheduled SimulationEvent)} {posts : List Post}
    {s s' : HomingSimulation α} (h : s.Tally happened (before ++ s.events.pending))
    (hs : s.deliverAll posts = .ok s') : s'.Tally happened (before ++ s'.events.pending) :=
  foldlM_keeps (P := fun s : HomingSimulation α => s.Tally happened (before ++ s.events.pending))
    (fun h hs => h.deliver hs) h hs

/-! ## What events do to the account -/

theorem orderRecord?_setController {s : HomingSimulation α} {q : Nat} {c c' : SimulatedController α}
    (hq : s.controllers[q]? = some c) (hb : c.Becomes c') (e : Scheduled SimulationEvent) :
    (s.setController q c').orderRecord? e = s.orderRecord? e := by
  unfold orderRecord?
  split
  · rename_i place command he
    by_cases hplace : q = place
    · subst hplace
      have hget : (s.setController q c').controllers[q]? = some c' :=
        List.getElem?_set_self (List.getElem?_eq_some_iff.1 hq).1
      rw [hget, hq, Option.map_some, Option.map_some, commandRecord, hb.scenario, hb.latency]
      rfl
    · rw [HomingSimulation.setController, List.getElem?_set_ne hplace]
  · rfl

/-- A controller changes, and with it the commands that it has obeyed. -/
theorem Tally.setController {s : HomingSimulation α}
    {happened happened' others others' : List (Scheduled SimulationEvent)} {q : Nat}
    {c c' : SimulatedController α} (h : s.Tally happened others) (hq : s.controllers[q]? = some c)
    (hb : c.Becomes c') (hall : happened' ++ others' = happened ++ others)
    (hheeds : c'.Heeds (ordersTo q happened'))
    (hsame : ∀ place, q ≠ place → ordersTo place happened' = ordersTo place happened) :
    (s.setController q c').Tally happened' others' := by
  refine ⟨?_, fun place d hd => ?_⟩
  · rw [List.filterMap_congr fun e _ => orderRecord?_setController hq hb e, hall]
    exact h.rows
  · simp only [HomingSimulation.setController, List.getElem?_set] at hd
    split at hd
    · rename_i hplace
      subst hplace
      simp only [(List.getElem?_eq_some_iff.1 hq).1, if_true, Option.some.injEq] at hd
      exact hd ▸ hheeds
    · rename_i hplace
      rw [hsame place hplace]
      exact h.heeds place d hd

/-- A controller changes that obeys no command. -/
theorem Tally.become {s : HomingSimulation α} {happened others : List (Scheduled SimulationEvent)}
    {q : Nat} {c c' : SimulatedController α} (h : s.Tally happened others) (hq : s.controllers[q]? = some c)
    (hb : c.Becomes c') (he : c'.expire = c.expire) : (s.setController q c').Tally happened others :=
  h.setController hq hb rfl ((h.heeds q c hq).becomes hb he) fun _ _ => rfl

theorem Tally.sendReport {s s' : HomingSimulation α} {happened before : List (Scheduled SimulationEvent)}
    {q : Nat} {c c' : SimulatedController α} (h : s.Tally happened (before ++ s.events.pending))
    (hq : s.controllers[q]? = some c) (hb : c.Becomes c') (he : c'.expire = c.expire)
    (hs : s.sendReport q c' = .ok s') : s'.Tally happened (before ++ s'.events.pending) := by
  rcases sendReport_eq_ok hs with ⟨-, rfl⟩ | rfl
  · exact h.become hq hb he
  · have hb' : c.Becomes { c' with reportsSent := c'.reportsSent + 1 } := hb.trans ⟨rfl, rfl, rfl, fun _ hx => hx⟩
    have hset : (s.setController q { c' with reportsSent := c'.reportsSent + 1 }).Tally happened
        (before ++ (s.setController q { c' with reportsSent := c'.reportsSent + 1 }).events.pending) :=
      h.become hq hb' he
    exact hset.schedule _ rfl

/-- Reports that arrive are no messages of the host. -/
theorem sent_arrivals (s : HomingSimulation α) (arrivals : List (Nat × StatusReport)) :
    sent { s with log := (arrivals.map s.arrivalRecord).reverse ++ s.log } = s.sent := by
  have hnone : ((arrivals.map s.arrivalRecord).filter fun m => m.kind.direction = "host->mcu") = [] := by
    refine List.filter_eq_nil_iff.2 fun m hm => ?_
    obtain ⟨arrival, -, rfl⟩ := List.mem_map.1 hm
    simp [arrivalRecord, MessageKind.direction]
  simp only [sent, messages, List.reverse_append, List.reverse_reverse, List.filter_append, hnone, List.append_nil]

theorem Tally.receive {s s' : HomingSimulation α} {arrivals : List (Nat × StatusReport)}
    {happened before : List (Scheduled SimulationEvent)} (h : s.Tally happened (before ++ s.events.pending))
    (hs : s.receive arrivals = .ok s') : s'.Tally happened (before ++ s'.events.pending) := by
  have hrows := h.rows
  rw [← sent_arrivals s arrivals] at hrows
  obtain ⟨extensions, lapse, -, hdeliver⟩ := receive_eq_ok hs
  refine Tally.deliverAll ?_ hdeliver
  exact ⟨hrows, h.heeds⟩

/-- A command arrives. -/
theorem Tally.obey {s : HomingSimulation α} {happened before others : List (Scheduled SimulationEvent)}
    {e : Scheduled SimulationEvent} {q : Nat} {command : Command} (h : s.Tally happened (before ++ e :: others))
    (he : e.event = .order q command) : (s.obey q command).Tally (happened ++ [e]) (before ++ others) := by
  have hmoved : s.Tally happened (e :: (before ++ others)) := h.perm List.perm_middle
  have hall : happened ++ [e] ++ (before ++ others) = happened ++ e :: (before ++ others) := by simp
  have hto : ordersTo q (happened ++ [e]) = ordersTo q happened ++ [command] := by
    rw [ordersTo_concat, he]
    simp [SimulationEvent.orderTo?]
  have hother : ∀ place, q ≠ place → ordersTo place (happened ++ [e]) = ordersTo place happened := by
    intro place hne
    rw [ordersTo_concat, he]
    simp [SimulationEvent.orderTo?, hne]
  unfold HomingSimulation.obey
  split
  · -- there is no controller at the place, and none whose commands have changed
    rename_i hq
    refine ⟨by rw [hall]; exact hmoved.rows, fun place c hc => ?_⟩
    have hne : q ≠ place := by
      rintro rfl
      rw [hq] at hc
      cases hc
    rw [hother place hne]
    exact h.heeds place c hc
  · rename_i c hq
    split
    · rename_i hkind
      exact hmoved.setController hq ⟨rfl, rfl, rfl, fun _ hx => hx⟩ hall
        (hto ▸ (h.heeds q c hq).setTimeout hkind) hother
    · rename_i hkind
      exact hmoved.setController hq (c.becomes_stop _ _ _) hall
        (hto ▸ (h.heeds q c hq).stop (fun hk => hkind hk) _ _ _) hother

/-- The reports that arrive along with another one bring no command. -/
theorem tally_dropWhile {s : HomingSimulation α} {happened before : List (Scheduled SimulationEvent)}
    {p : Scheduled SimulationEvent → Bool} (hp : ∀ e, p e = true → e.event.isOrder = false) :
    ∀ {others : List (Scheduled SimulationEvent)}, s.Tally happened (before ++ others) →
      s.Tally happened (before ++ others.dropWhile p)
  | [], h => h
  | e :: others, h => by
    rw [List.dropWhile_cons]
    split
    · rename_i hpe
      exact tally_dropWhile hp ((tally_drop (hp e hpe)).1 h)
    · exact h

theorem Tally.happens {s s' : HomingSimulation α} {happened before : List (Scheduled SimulationEvent)}
    {e : Scheduled SimulationEvent} (h : s.Tally happened (before ++ e :: s.events.pending))
    (hs : s.happen e.time e.event = .ok s') : s'.Tally (happened ++ [e]) (before ++ s'.events.pending) := by
  cases he : e.event with
  | sample q =>
    have hrest := h.happen (by rw [he]; rfl)
    simp only [he, HomingSimulation.happen] at hs
    split at hs
    · cases hs
      exact hrest
    · rename_i c hq
      obtain ⟨s₁, hsend, hs⟩ := bind_eq_ok.1 hs
      have hsent := hrest.sendReport hq (c.becomes_watch _) (c.expire_watch _) hsend
      split at hs
      · obtain ⟨next, -, hs⟩ := bind_eq_ok.1 hs
        cases hs
        exact hsent.schedule next rfl
      · cases hs
        exact hsent
  | endstop q =>
    have hrest := h.happen (by rw [he]; rfl)
    simp only [he, HomingSimulation.happen] at hs
    split at hs
    · cases hs
      exact hrest
    · rename_i c hq
      exact hrest.sendReport hq (c.becomes_stop _ _ _) (c.expire_stop _ _ _).1 hs
  | arrival q report =>
    have hrest := h.happen (by rw [he]; rfl)
    simp only [he, HomingSimulation.happen, EventQueue.popWhile] at hs
    refine Tally.receive ?_ hs
    have hdropped := tally_dropWhile (p := fun f => f.time == e.time && f.event.isArrival) ?_ hrest
    · exact ⟨hdropped.rows, hdropped.heeds⟩
    · intro f hf
      cases hk : f.event <;> first | rfl | simp [hk, SimulationEvent.isArrival] at hf
  | order q command =>
    simp only [he, HomingSimulation.happen] at hs
    cases hs
    have hobeyed := h.obey he
    obtain ⟨controllers, heq⟩ := s.obey_frame q command
    rw [heq] at hobeyed ⊢
    exact hobeyed

/-! ## The simulated window -/

/-- The events that happen up to `finish`, in turn. -/
def happened (finish : Instant) : Nat → HomingSimulation α → List (Scheduled SimulationEvent)
  | 0, _ => []
  | fuel + 1, s =>
    match s.step finish with
    | .ok (true, s') => s.events.pending.head?.toList ++ happened finish fuel s'
    | _ => []

/-- The event that ends the window. -/
def overrun? (finish : Instant) : Nat → HomingSimulation α → Option (Scheduled SimulationEvent)
  | 0, _ => none
  | fuel + 1, s =>
    match s.step finish with
    | .ok (true, s') => overrun? finish fuel s'
    | .ok (false, _) => s.events.pending.head?
    | .error _ => none

theorem Tally.step {s s' : HomingSimulation α} {finish : Instant} {past : List (Scheduled SimulationEvent)}
    (h : s.Tally past s.events.pending) (hs : s.step finish = .ok (true, s')) :
    s'.Tally (past ++ s.events.pending.head?.toList) s'.events.pending := by
  obtain ⟨e, rest, hp, -, hh⟩ := step_eq_true hs
  rw [hp] at h ⊢
  have hready : (s.ready e rest).Tally past ([] ++ e :: (s.ready e rest).events.pending) := ⟨h.rows, h.heeds⟩
  exact hready.happens hh

/-- When the window is ended, the event that ended it is the only one that is neither past nor pending. -/
theorem Tally.steps {finish : Instant} : ∀ {fuel : Nat} {s s' : HomingSimulation α}
    {past : List (Scheduled SimulationEvent)}, s.Tally past s.events.pending → steps finish fuel s = .ok s' →
      s'.Tally (past ++ s.happened finish fuel) ((s.overrun? finish fuel).toList ++ s'.events.pending) ∧
        ∀ e ∈ s.overrun? finish fuel, finish < e.time
  | 0, _, _, _, _, hs => by cases hs
  | fuel + 1, s, s', past, h, hs => by
    rw [HomingSimulation.steps] at hs
    rw [happened, overrun?]
    split at hs
    · cases hs
    · rename_i s₁ hstep
      cases hs
      simp only [hstep, List.append_nil]
      refine ⟨?_, (step_eq_false hstep).1⟩
      cases hp : s.events.pending with
      | nil =>
        simp only [HomingSimulation.step, EventQueue.pop, hp] at hstep
        cases hstep
        rwa [List.head?_nil, Option.toList_none, List.nil_append]
      | cons e rest =>
        rw [step_eq hp] at hstep
        split at hstep
        · cases hstep
          rw [hp] at h
          exact ⟨h.rows, h.heeds⟩
        · split at hstep <;> cases hstep
    · rename_i s₁ hstep
      simp only [hstep]
      obtain ⟨htally, hlate⟩ := (h.step hstep).steps hs
      rw [List.append_assoc] at htally
      exact ⟨htally, hlate⟩

/-! ## Commands still under way -/

theorem Tally.settle {happened before : List (Scheduled SimulationEvent)} {s : HomingSimulation α}
    (h : s.Tally happened (before ++ s.events.pending)) :
    s.settle.Tally (happened ++ s.events.pending.filter fun e => e.event.isOrder) before := by
  have hfold : ∀ (pending past : List (Scheduled SimulationEvent)) (s : HomingSimulation α),
      s.Tally past (before ++ pending) → (pending.foldl (fun s e =>
        match e.event with
        | .order place command => { s with clock := s.clock.advance e.time }.obey place command
        | _ => s) s).Tally (past ++ pending.filter fun e => e.event.isOrder) before := by
    intro pending
    induction pending with
    | nil =>
      intro past s h
      simpa using h
    | cons e rest ih =>
      intro past s h
      rw [List.foldl_cons, List.filter_cons]
      split
      · rename_i place command he
        have hready : { s with clock := s.clock.advance e.time }.Tally past (before ++ e :: rest) :=
          ⟨h.rows, h.heeds⟩
        have horder : e.event.isOrder = true := by rw [he]; rfl
        rw [if_pos horder, List.append_cons]
        exact ih _ _ (hready.obey he)
      · rename_i hno
        have horder : e.event.isOrder = false := by
          cases he : e.event <;> first | rfl | exact absurd he (hno _ _)
        rw [if_neg (by rw [horder]; exact Bool.false_ne_true)]
        exact ih _ _ ((tally_drop horder).1 h)
  exact hfold _ _ { s with events := { s.events with pending := [] } } ⟨h.rows, h.heeds⟩

/-! ## Runs -/

/-- No message has been sent, nothing is pending, and no controller has been told anything. -/
structure Silent (s : HomingSimulation α) : Prop where
  log : s.log = []
  pending : s.events.pending = []
  expire : ∀ c ∈ s.controllers, c.expire = none

theorem Silent.addController {s s' : HomingSimulation α} {c : ControllerScenario α} (h : s.Silent)
    (hs : s.addController c = .ok s') : s'.Silent := by
  unfold HomingSimulation.addController at hs
  dsimp only at hs
  obtain ⟨_, -, hs⟩ := bind_eq_ok.1 hs
  split at hs
  · cases hs
  · obtain ⟨_, -, hs⟩ := bind_eq_ok.1 hs
    obtain ⟨period, -, hs⟩ := bind_eq_ok.1 hs
    obtain ⟨latency, -, hs⟩ := bind_eq_ok.1 hs
    cases hs
    refine ⟨h.log, h.pending, fun c' hc' => ?_⟩
    rcases List.mem_append.1 hc' with hc' | hc'
    · exact h.expire c' hc'
    · rw [List.mem_singleton.1 hc']

theorem tally_of? {scenario : Scenario α} {s : HomingSimulation α} (h : of? scenario = .ok s) :
    s.Tally [] s.events.pending := by
  have hsilent : s.Silent := foldlM_keeps (P := Silent) (fun h hs => h.addController hs) ⟨rfl, rfl, by simp⟩ h
  refine ⟨by simp [sent, messages, hsilent.log, hsilent.pending], fun place c hc => ⟨?_, fun ⟨k, hk, _⟩ => ?_⟩⟩
  · exact hsilent.expire c (List.mem_of_getElem? hc)
  · cases hk

theorem Tally.begin {s s' : HomingSimulation α} {start : Instant} (h : s.Tally [] s.events.pending)
    (hs : s.begin start = .ok s') : s'.Tally [] s'.events.pending := by
  obtain ⟨-, s₁, hdeliver, hs⟩ := begin_eq_ok hs
  have hposted : s₁.Tally [] ([] ++ s₁.events.pending) := by
    refine Tally.deliverAll ?_ hdeliver
    exact ⟨h.rows, h.heeds⟩
  exact scheduleAll_keeps (fun s => s.Tally [] ([] ++ s.events.pending))
    (fun time _ h => ⟨h.schedule time rfl, h.schedule time rfl⟩) hposted hs

/-- The events of a run in turn: those of the simulated window, and the commands that arrive behind it; with
the event that ended the window. -/
structure Passage where
  happened : List (Scheduled SimulationEvent)
  overrun : Option (Scheduled SimulationEvent)

/-- The events of a run. -/
def passage (limit : Nat) (s : HomingSimulation α) : Except SimulationFailure Passage := do
  let start ← inTime (Instant.ofSeconds? s.scenario.simulation.startTime)
  let finish ← inTime (Instant.ofSeconds? s.scenario.simulation.duration)
  let begun ← s.begin start
  let ended ← steps finish limit begun
  let (dispatch, posts, _) := ended.dispatch.stop
  let ended ← { ended with dispatch }.deliverAll posts
  return ⟨begun.happened finish limit ++ ended.events.pending.filter fun e => e.event.isOrder,
    begun.overrun? finish limit⟩

theorem Tally.run {s last : HomingSimulation α} {limit : Nat} {report : HomingReport α}
    (h : s.Tally [] s.events.pending) (hrun : s.runFor limit = .ok (last, report)) :
    ∃ p finish, s.passage limit = .ok p ∧ Instant.ofSeconds? s.scenario.simulation.duration = some finish ∧
      last.Tally p.happened p.overrun.toList ∧ (∀ e ∈ p.overrun, finish < e.time) ∧
      report.controllers = last.controllers.map fun c =>
        ⟨c.scenario.name, c.stopped.map Prod.fst, c.stopTime, c.reportsSent⟩ := by
  obtain @⟨start, finish, begun, ended, stopped, stoppedByHost, hstart, hfinish, hbegun, hsteps, -, hdeliver⟩ :=
    ran_of_runFor hrun
  obtain ⟨hover, hlate⟩ := (h.begin hbegun).steps hsteps
  have hstopped : stopped.Tally ([] ++ begun.happened finish limit)
      ((begun.overrun? finish limit).toList ++ stopped.events.pending) := by
    refine Tally.deliverAll ?_ hdeliver
    exact ⟨hover.rows, hover.heeds⟩
  refine ⟨⟨begun.happened finish limit ++ stopped.events.pending.filter fun e => e.event.isOrder,
    begun.overrun? finish limit⟩, finish, ?_, inTime_eq_ok.1 hfinish, hstopped.settle, hlate, rfl⟩
  simp only [passage, hstart, hfinish, hbegun, hsteps, bind, Except.bind, hdeliver]
  rfl

/-- In a first run of a scenario that has an outcome, each message of the host belongs to one command, which
its controller has obeyed unless it arrives in the event that ended the window, later than the window ends.
A controller knows the expire clock of the last command that it has obeyed of that kind, and has stopped if
one told it to: so the outcome has a reason for each controller that was sent a trigger, but for the one of
the event that ended the window. -/
theorem commands_obeyed {scenario : Scenario α} {initial last : HomingSimulation α} {limit : Nat}
    {report : HomingReport α} (hi : of? scenario = .ok initial) (hrun : initial.runFor limit = .ok (last, report)) :
    ∃ p finish, initial.passage limit = .ok p ∧ Instant.ofSeconds? scenario.simulation.duration = some finish ∧
      last.sent.Perm ((p.happened ++ p.overrun.toList).filterMap last.orderRecord?) ∧
      (∀ (place : Nat) (c : SimulatedController α), last.controllers[place]? = some c →
        c.Heeds (ordersTo place p.happened)) ∧
      (∀ e ∈ p.overrun, finish < e.time) ∧
      ∀ m ∈ last.messages, m.kind = .trigger → (∃ e ∈ p.overrun, last.orderRecord? e = some m) ∨
        ∃ c ∈ report.controllers, c.name = m.controller ∧ c.stopReason.isSome = true := by
  obtain ⟨p, finish, hp, hfinish, htally, hlate, hreport⟩ := (tally_of? hi).run hrun
  rw [(prepared_of? hi).scenario_eq] at hfinish
  refine ⟨p, finish, hp, hfinish, htally.rows, htally.heeds, hlate, fun m hm hk => ?_⟩
  have hsent : m ∈ last.sent := List.mem_filter.2 ⟨hm, by rw [hk]; rfl⟩
  obtain ⟨e, he, hrecord⟩ := List.mem_filterMap.1 (htally.rows.mem_iff.1 hsent)
  rcases List.mem_append.1 he with he | he
  · right
    unfold orderRecord? at hrecord
    split at hrecord
    · rename_i place command horder
      obtain ⟨c, hc, rfl⟩ := Option.map_eq_some_iff.1 hrecord
      have hto : command ∈ ordersTo place p.happened :=
        List.mem_filterMap.2 ⟨e, he, by rw [horder]; simp [SimulationEvent.orderTo?]⟩
      have hstopped := (htally.heeds place c hc).stopped ⟨command, hto, fun h => by
        have hkind : MessageKind.ofCommand command = .trigger := hk
        rw [h] at hkind
        cases hkind⟩
      rw [hreport]
      exact ⟨_, List.mem_map_of_mem (List.mem_of_getElem? hc), rfl, by simpa using hstopped⟩
    · cases hrecord
  · exact .inl ⟨e, Option.mem_toList.1 he, hrecord⟩

/-- Two controllers that report every 300 ms, one of which triggers 20 ms before the window ends. The other
one hears of it after the given latency. -/
def lateTrigger (latency : ℚ) : Scenario ℚ :=
  ⟨.default, { TrsyncSettings.default with timeout := 1 },
    [{ ControllerScenario.named "mcu" with freq := 1000000, statusPeriod := some 0.3, triggerTime := some 0.48 },
      { ControllerScenario.named "toolboard" with freq := 1000000, statusPeriod := some 0.3, latency }]⟩

/-- A report that is due in the meantime ends the window, and the trigger arrives behind it. -/
theorem commands_obeyed_behind_window : ∃ initial last report p, of? (lateTrigger 0.2) = .ok initial ∧
    initial.runFor 40 = .ok (last, report) ∧ initial.passage 40 = .ok p ∧
    last.sent.Perm ((p.happened ++ p.overrun.toList).filterMap last.orderRecord?) ∧ last.sent.length = 3 ∧
    p.overrun.map (fun e => e.event.isOrder) = some false ∧
    report.controllers.map (fun c => c.stopReason) = [some Reason.endstopHit, some Reason.endstopHit] := by
  have hi := ok_of_isSome (x := of? (lateTrigger 0.2)) (by decide +kernel)
  have hrun := ok_of_isSome (x := ((of? (lateTrigger 0.2)).toOption.get (by decide +kernel)).runFor 40)
    (by decide +kernel)
  obtain ⟨p, finish, hp, -, hrows, -, -, -⟩ := commands_obeyed hi hrun
  have hoverrun : (((of? (lateTrigger 0.2)).toOption.get (by decide +kernel)).passage 40).toOption.map
      (fun p => p.overrun.map fun e => e.event.isOrder) = some (some false) := by decide +kernel
  rw [hp] at hoverrun
  exact ⟨_, _, _, p, hi, hrun, hp, hrows, by decide +kernel, Option.some.inj hoverrun, by decide +kernel⟩

/-- The trigger itself ends the window, and its controller never hears of it. -/
theorem not_commands_obeyed : ∃ initial last report, of? (lateTrigger 0.03) = .ok initial ∧
    initial.runFor 40 = .ok (last, report) ∧
    (last.messages.filter fun m => m.kind = .trigger).map (fun m => m.controller) = ["toolboard"] ∧
    report.controllers.map (fun c => (c.name, c.stopReason)) =
      [("mcu", some Reason.endstopHit), ("toolboard", none)] := by
  have hi := ok_of_isSome (x := of? (lateTrigger 0.03)) (by decide +kernel)
  have hrun := ok_of_isSome (x := ((of? (lateTrigger 0.03)).toOption.get (by decide +kernel)).runFor 40)
    (by decide +kernel)
  exact ⟨_, _, _, hi, hrun, by decide +kernel, by decide +kernel⟩

end HomingSimulation

end PrinterMotion
