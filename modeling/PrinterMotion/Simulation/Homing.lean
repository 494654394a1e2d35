/-
Simulating a homing move event by event. Controllers report their state at fixed times and when their
endstop closes; reports and commands arrive a latency later. Reports that reach the host at one time are
handed to the dispatch as one batch.
-/
import PrinterMotion.Simulation.Controller
import PrinterMotion.Trsync.Batch

namespace PrinterMotion

/-- What happens at a point in simulated time. Controllers are given by their places. -/
inductive SimulationEvent where
  /-- A controller samples its state and reports it. -/
  | sample (controller : Nat)
  /-- The endstop of a controller closes. -/
  | endstop (controller : Nat)
  /-- A report arrives at the host. -/
  | arrival (controller : Nat) (report : StatusReport)
  /-- A command arrives at a controller. -/
  | order (controller : Nat) (command : Command)
deriving Repr, DecidableEq

namespace SimulationEvent

/-- Whether a report arrives. -/
def isArrival : SimulationEvent → Bool
  | arrival .. => true
  | _ => false

/-- The report that arrives, with its controller. -/
def arrival? : SimulationEvent → Option (Nat × StatusReport)
  | arrival controller report => some (controller, report)
  | _ => none

end SimulationEvent

/-- The kinds of messages. -/
inductive MessageKind where
  | setTimeout
  | trigger
  | state
deriving Repr, DecidableEq

namespace MessageKind

/-- The tags of the kinds. -/
def tags : TrsyncTags := ⟨0x30, 0x31, 0x32⟩

/-- The kind of a command. -/
def ofCommand (c : Command) : MessageKind := if c.tag? = some tags.setTimeout then setTimeout else trigger

/-- The name of the kind. -/
def name : MessageKind → String
  | setTimeout => "trsync_set_timeout"
  | trigger => "trsync_trigger"
  | state => "trsync_state"

/-- Which way messages of the kind go. -/
def direction : MessageKind → String
  | state => "mcu->host"
  | _ => "host->mcu"

end MessageKind

/-- A message that was sent by the host or reached it. -/
structure MessageRecord (α : Type) where
  time : α
  controller : String
  kind : MessageKind
  /-- The clock that the message carries. -/
  clock : UInt64
  /-- Whether the controller can still trigger, or the reason of a trigger. -/
  value : UInt32
deriving Repr

/-- What became of a controller. -/
structure ControllerSummary (α : Type) where
  name : String
  stopReason : Option Reason
  stopTime : Option α
  reportsSent : Nat
deriving Repr

/-- The outcome of a simulated homing move. -/
structure HomingReport (α : Type) where
  trigger : Option (TriggerEvent α)
  /-- The controller that triggered. -/
  triggerController : Option String
  /-- How often an expire clock was extended. -/
  extensions : Nat
  /-- Why the move was broken off, if a controller had stopped by itself. -/
  lapse : Option DispatchError
  /-- Whether nothing had happened by the end of the simulated window. -/
  stoppedByHost : Bool
  /-- The host time of the last event. -/
  endTime : α
  controllers : List (ControllerSummary α)
deriving Repr

/-- Why a simulation cannot go on. -/
inductive SimulationFailure where
  | dispatch (error : DispatchError)
  /-- A time lies beyond the end of simulated time. -/
  | endOfTime
  /-- There is no end of events. -/
  | endless
deriving Repr, DecidableEq

/-- The wording of a failure. -/
def SimulationFailure.message : SimulationFailure → String
  | .dispatch error => s!"Dispatch error: {error.message}"
  | .endOfTime => "The end of simulated time is passed"
  | .endless => "The simulation does not end"

/-- A homing move under simulation. -/
structure HomingSimulation (α : Type) where
  scenario : Scenario α
  events : EventQueue SimulationEvent
  clock : SimulationClock
  dispatch : Dispatch α
  controllers : List (SimulatedController α)
  /-- The messages, newest first. -/
  log : List (MessageRecord α)
  extensions : Nat
  lapse : Option DispatchError
deriving Repr

namespace HomingSimulation

variable {α : Type} [Scalar α]

/-- The host time in seconds. -/
def seconds (s : HomingSimulation α) : α := Instant.seconds s.clock.now

/-- The messages in their order. -/
def messages (s : HomingSimulation α) : List (MessageRecord α) := s.log.reverse

/-- A point in time that must come before the end of time. -/
def inTime (t : Option Instant) : Except SimulationFailure Instant :=
  match t with
  | some t => .ok t
  | none => .error .endOfTime

/-- A result of the dispatch, whose error ends the simulation. -/
def settled {β : Type} : Except DispatchError β → Except SimulationFailure β
  | .ok b => .ok b
  | .error e => .error (.dispatch e)

/-! ## Setting up -/

/-- Adds a controller. -/
def addController (s : HomingSimulation α) (c : ControllerScenario α) :
    Except SimulationFailure (HomingSimulation α) := do
  let place := s.controllers.length
  let oid := UInt32.ofNat place
  let count := s.scenario.controllers.length
  let clock := SimulatedController.clockOf c
  let (dispatch, registered) := s.dispatch.register .intact oid oid MessageKind.tags
  let _ ← settled registered
  match s.scenario.trsync.window? count s.scenario.simulation.startTime clock with
  | none => throw (.dispatch .clockOverflow)
  | some window =>
    let (dispatch, ready) := dispatch.setup place window clock
    settled ready
    let period ← inTime (Instant.ofSeconds? (c.period s.scenario.trsync count))
    let latency ← inTime (Instant.ofSeconds? c.latency)
    return { s with
      dispatch,
      controllers := s.controllers ++ [⟨c, clock, period, latency, none, none, none, 0⟩] }

/-- A simulation of a scenario that has not begun. -/
def of? (scenario : Scenario α) : Except SimulationFailure (HomingSimulation α) :=
  scenario.controllers.foldlM addController
    ⟨scenario, EventQueue.empty, SimulationClock.zero, Dispatch.empty, [], [], 0, none⟩

/-! ## Messages -/

/-- Schedules an event. -/
def schedule (s : HomingSimulation α) (time : Instant) (event : SimulationEvent) : HomingSimulation α :=
  { s with events := s.events.schedule time event }

/-- Sends a command of the host on its way. -/
def deliver (s : HomingSimulation α) (p : Post) : Except SimulationFailure (HomingSimulation α) :=
  match s.controllers[p.endpoint]? with
  | none => .ok s
  | some c => do
    let kind := MessageKind.ofCommand p.command
    let value := match kind with
      | .trigger => p.command.fields.getD 2 0
      | _ => 0
    let record := ⟨s.seconds, c.scenario.name, kind, p.command.reqClock, value⟩
    let time ← inTime (Instant.add? s.clock.now c.latency)
    return { s with log := record :: s.log }.schedule time (.order p.endpoint p.command)

/-- Sends the commands of the host on their way. -/
def deliverAll (s : HomingSimulation α) (posts : List Post) :
    Except SimulationFailure (HomingSimulation α) :=
  posts.foldlM deliver s

/-- Replaces a controller. -/
def setController (s : HomingSimulation α) (place : Nat) (c : SimulatedController α) :
    HomingSimulation α :=
  { s with controllers := s.controllers.set place c }

/-- A controller sends a report, which may be lost. -/
def sendReport (s : HomingSimulation α) (place : Nat) (c : SimulatedController α) :
    Except SimulationFailure (HomingSimulation α) := do
  let time ← inTime (Instant.add? s.clock.now c.latency)
  if c.scenario.losesReportAt s.seconds then return s.setController place c
  else
    let report := c.reportAt (UInt32.ofNat place) s.seconds
    return (s.setController place { c with reportsSent := c.reportsSent + 1 }).schedule time
      (.arrival place report)

/-- The record of a report that reaches the host. -/
def arrivalRecord (s : HomingSimulation α) (arrival : Nat × StatusReport) : MessageRecord α :=
  let name := ((s.controllers[arrival.1]?).map fun c => c.scenario.name).getD ""
  ⟨s.seconds, name, .state, arrival.2.clock.toUInt64, if arrival.2.canTrigger then 1 else 0⟩

/-- How many expire clocks a batch extended. -/
def extended (outcomes : List (StatusOutcome α)) : Nat :=
  outcomes.countP fun
    | .extended _ => true
    | _ => false

/-- Hands reports that arrive together to the dispatch. -/
def receive (s : HomingSimulation α) (arrivals : List (Nat × StatusReport)) :
    Except SimulationFailure (HomingSimulation α) :=
  let s := { s with log := (arrivals.map s.arrivalRecord).reverse ++ s.log }
  let (dispatch, posts, outcomes) :=
    s.dispatch.batch (arrivals.map fun (place, report) => ⟨some place, report⟩)
  let s := { s with dispatch }
  match outcomes with
  | .ok outcomes => { s with extensions := s.extensions + extended outcomes }.deliverAll posts
  | .error (.lapsed oid clock expire) =>
    { s with lapse := some (.lapsed oid clock expire) }.deliverAll posts
  | .error e => .error (.dispatch e)

/-- A controller obeys a command of the host. -/
def obey (s : HomingSimulation α) (place : Nat) (command : Command) : HomingSimulation α :=
  match s.controllers[place]? with
  | none => s
  | some c =>
    match MessageKind.ofCommand command with
    | .setTimeout => s.setController place { c with expire := some command.reqClock }
    | _ =>
      let reason := command.fields.getD 2 0
      s.setController place (c.stop reason (c.clockAt s.seconds) s.seconds)

/-! ## Events -/

/-- Lets the event of a point in time happen, at which the clock stands. -/
def happen (s : HomingSimulation α) (time : Instant) (event : SimulationEvent) :
    Except SimulationFailure (HomingSimulation α) :=
  match event with
  | .sample place =>
    match s.controllers[place]? with
    | none => .ok s
    | some c => do
      let c := c.watch s.seconds
      let s ← s.sendReport place c
      if s.dispatch.active then
        return s.schedule (← inTime (Instant.add? time c.period)) (.sample place)
      else return s
  | .endstop place =>
    match s.controllers[place]? with
    | none => .ok s
    | some c => s.sendReport place (c.stop Reason.endstopHit (c.clockAt s.seconds) s.seconds)
  | .arrival place report =>
    let (others, events) := s.events.popWhile fun e => e.time == time && e.event.isArrival
    let arrivals := others.filterMap fun (e : Scheduled SimulationEvent) => e.event.arrival?
    { s with events }.receive ((place, report) :: arrivals)
  | .order place command => .ok (s.obey place command)

/-- Lets the next event happen. There is none if no event is pending, or if the next one, which is then
dropped, comes after `finish`. -/
def step (finish : Instant) (s : HomingSimulation α) :
    Except SimulationFailure (Bool × HomingSimulation α) :=
  match s.events.pop with
  | (none, _) => .ok (false, s)
  | (some e, events) =>
    let s := { s with events }
    if finish < e.time then .ok (false, s)
    else
      match ({ s with clock := s.clock.advance e.time }).happen e.time e.event with
      | .ok s => .ok (true, s)
      | .error failure => .error failure

/-- Lets events happen until there is none left up to `finish`; the first argument bounds their number. -/
def steps (finish : Instant) :
    Nat → HomingSimulation α → Except SimulationFailure (HomingSimulation α)
  | 0, _ => .error .endless
  | fuel + 1, s =>
    match s.step finish with
    | .error failure => .error failure
    | .ok (false, s) => .ok s
    | .ok (true, s) => steps finish fuel s

/-- The bound on the number of events of a run. -/
def eventLimit : Nat := twoTo 62

/-- Lets the commands arrive that are still under way; all other events are dropped. -/
def settle (s : HomingSimulation α) : HomingSimulation α :=
  s.events.pending.foldl
    (fun s e =>
      match e.event with
      | .order place command => { s with clock := s.clock.advance e.time }.obey place command
      | _ => s)
    { s with events := { s.events with pending := [] } }

/-- Schedules the first report of a controller, and the time at which its endstop closes. -/
def scheduleController (start : Instant) (s : HomingSimulation α)
    (entry : SimulatedController α × Nat) : Except SimulationFailure (HomingSimulation α) := do
  let (c, place) := entry
  let s := s.schedule (← inTime (Instant.add? start c.period)) (.sample place)
  match c.scenario.triggerTime with
  | none => return s
  | some t => return s.schedule (← inTime (Instant.ofSeconds? t)) (.endstop place)

/-- Starts the dispatch and schedules the first events. -/
def begin (s : HomingSimulation α) (start : Instant) :
    Except SimulationFailure (HomingSimulation α) := do
  let s := { s with clock := s.clock.advance start }
  let (dispatch, posts, started) := s.dispatch.start s.scenario.simulation.reason
  settled started
  let s ← { s with dispatch }.deliverAll posts
  s.controllers.zipIdx.foldlM (scheduleController start) s

/-- The outcome, where the dispatch has been stopped. -/
def report (s : HomingSimulation α) (stoppedByHost : Bool) : HomingReport α :=
  let winner := s.dispatch.trigger.bind fun t => s.controllers[t.endpoint]?
  ⟨s.dispatch.trigger, winner.map fun c => c.scenario.name, s.extensions, s.lapse, stoppedByHost,
    s.seconds, s.controllers.map fun c =>
      ⟨c.scenario.name, c.stopped.map Prod.fst, c.stopTime, c.reportsSent⟩⟩

/-- Runs the scenario, with a bound on the number of events. -/
def runFor (limit : Nat) (s : HomingSimulation α) :
    Except SimulationFailure (HomingSimulation α × HomingReport α) := do
  let start ← inTime (Instant.ofSeconds? s.scenario.simulation.startTime)
  let finish ← inTime (Instant.ofSeconds? s.scenario.simulation.duration)
  let s ← steps finish limit (← s.begin start)
  let (dispatch, posts, stopped) := s.dispatch.stop
  let stoppedByHost ← settled stopped
  let s := settle (← { s with dispatch }.deliverAll posts)
  return (s, s.report stoppedByHost)

/-- Runs the scenario to its end. A simulation that has run before goes on from the state it is in. -/
def run (s : HomingSimulation α) : Except SimulationFailure (HomingSimulation α × HomingReport α) :=
  s.runFor eventLimit

end HomingSimulation

end PrinterMotion
