/-
Status reports that reach a dispatch together. All are first noted at their endpoints; then triggers
race on host time, where a controller whose expire clock passed before the first trigger makes the
generation end without one; and if nothing stopped the dispatch, expire clocks are extended.
-/
import PrinterMotion.Trsync.Dispatch

namespace PrinterMotion

/-- A report with the place of the endpoint it is for; none for an endpoint of another dispatch. -/
structure StatusUpdate where
  place : Option Nat
  report : StatusReport
deriving Repr, DecidableEq

/-- What a report did. -/
inductive StatusOutcome (α : Type) where
  /-- The dispatch is idle, the object is another one, or the clock is no news. -/
  | ignored
  /-- The controller is running and has enough time left. -/
  | recorded
  | extended (expire : UInt64)
  | triggered (event : TriggerEvent α)
  /-- A trigger, or a passed expire clock, that another trigger of the batch came before. -/
  | superseded
deriving Repr

/-- What a report says, once its clock is extended to 64 bits. -/
inductive Finding (α : Type) where
  | nothing
  /-- The controller has triggered. -/
  | trip (clock : UInt64) (hostTime : α)
  /-- The expire clock, whose host time is given, has passed. -/
  | lapse (clock expire : UInt64) (expiredAt : α)
  | running (clock : UInt64)
deriving Repr

namespace Endpoint

variable {α : Type} [Scalar α]

/-- Notes a report, unless it is of another object or not newer than the last. -/
def note (ep : Endpoint α) (report : StatusReport) : Endpoint α × Finding α :=
  let clock := ep.clock.extend report.clock
  if report.oid ≠ ep.oid ∨ clock ≤ ep.window.lastStatus then (ep, .nothing)
  else
    let ep := { ep with
      clock := ep.clock.observe clock, window := { ep.window with lastStatus := clock } }
    let finding :=
      if !report.canTrigger then .trip clock (ep.clock.toTime clock)
      else if ep.window.expire < clock then
        .lapse clock ep.window.expire (ep.clock.toTime ep.window.expire)
      else .running clock
    (ep, finding)

/-- Whether the time left at a clock asks for an extension; none if the clock at which no time is left
does not fit the counter. -/
def wantsExtension? (ep : Endpoint α) (clock : UInt64) : Option Bool :=
  (Clock.add? clock ep.window.minExtend).map fun reach => !(reach < ep.window.expire)

/-- Moves the expire clock on from a reported clock; none if it would not fit the counter. -/
def extend? (ep : Endpoint α) (clock : UInt64) : Option (Endpoint α) :=
  (Clock.add? clock ep.window.expireTicks).map fun expire =>
    { ep with window := { ep.window with expire } }

end Endpoint

/-- A trigger of a batch. -/
structure Trip (α : Type) where
  /-- The position of its report in the batch. -/
  position : Nat
  /-- The place of its endpoint. -/
  place : Nat
  report : StatusReport
  clock : UInt64
  hostTime : α
deriving Repr

/-- The earlier of two triggers, where at the same time the endpoint registered first wins. -/
def Trip.earlier {α : Type} [Scalar α] (a b : Trip α) : Bool :=
  Scalar.totalLt a.hostTime b.hostTime ||
    (!Scalar.totalLt b.hostTime a.hostTime && decide (a.place < b.place))

/-- A passed expire clock of a batch: its host time, and the error that tells of it. -/
structure Lapse (α : Type) where
  expiredAt : α
  error : DispatchError
deriving Repr

/-- The first element that no other one is before. -/
def firstBy {β : Type} (before : β → β → Bool) : List β → Option β
  | [] => none
  | b :: rest => some (rest.foldl (fun best c => if before c best then c else best) b)

namespace Dispatch

variable {α : Type} [Scalar α]

/-- Notes the report of an update at its endpoint. -/
def note (d : Dispatch α) (u : StatusUpdate) : Dispatch α × Finding α :=
  match u.place.bind fun place => d.endpoints[place]?.map fun ep => (place, ep) with
  | none => (d, .nothing)
  | some (place, ep) =>
    if d.active && d.canTrigger then
      let (ep, finding) := ep.note u.report
      ({ d with endpoints := d.endpoints.set place ep }, finding)
    else (d, .nothing)

/-- Notes all reports in their order. -/
def noteAll (d : Dispatch α) : List StatusUpdate → Dispatch α × List (Finding α)
  | [] => (d, [])
  | u :: rest =>
    let (d, finding) := d.note u
    let (d, findings) := noteAll d rest
    (d, finding :: findings)

/-- The triggers among findings, with their positions counted from `position`. -/
def trips (position : Nat) : List StatusUpdate → List (Finding α) → List (Trip α)
  | u :: us, .trip clock hostTime :: fs =>
    ⟨position, u.place.getD 0, u.report, clock, hostTime⟩ :: trips (position + 1) us fs
  | _ :: us, _ :: fs => trips (position + 1) us fs
  | _, _ => []

/-- The passed expire clocks among findings. -/
def lapses : List StatusUpdate → List (Finding α) → List (Lapse α)
  | u :: us, .lapse clock expire expiredAt :: fs =>
    ⟨expiredAt, .lapsed u.report.oid clock expire⟩ :: lapses us fs
  | _ :: us, _ :: fs => lapses us fs
  | _, _ => []

/-- What a finding comes to if it neither wins nor extends. -/
def Finding.outcome : Finding α → StatusOutcome α
  | .nothing => .ignored
  | .trip .. => .superseded
  | .lapse .. => .superseded
  | .running _ => .recorded

/-- Ends the generation because a controller has stopped by itself. -/
def abort (d : Dispatch α) (error : DispatchError) :
    Dispatch α × List Post × Except DispatchError (List (StatusOutcome α)) :=
  let (d, told) := d.halt.broadcast Reason.commsTimeout
  (d, told, .error error)

/-- Ends the generation by a trigger. -/
def fire (d : Dispatch α) (trip : Trip α) : Dispatch α × List Post × TriggerEvent α :=
  let event : TriggerEvent α :=
    ⟨trip.place, trip.report.oid, trip.report.reason, trip.clock, trip.hostTime, d.generation⟩
  let d := d.halt
  let d := { d with
    endpoints := d.endpoints.modify trip.place fun ep => { ep with notified := true } }
  let (d, told) := d.broadcast d.reason
  ({ d with trigger := some event }, told, event)

/-- Extends the expire clock of an endpoint that reported to be running, if it asks for that. -/
def extendOne (d : Dispatch α) (place : Nat) (clock : UInt64) :
    Dispatch α × List Post × Except DispatchError (StatusOutcome α) :=
  match d.endpoints[place]? with
  | none => (d, [], .ok .recorded)
  | some ep =>
    match ep.wantsExtension? clock with
    | none => ({ d with broken := true }, [], .error .clockOverflow)
    | some false => (d, [], .ok .recorded)
    | some true =>
      match ep.extend? clock with
      | none => ({ d with broken := true }, [], .error .clockOverflow)
      | some ep =>
        let (ep, post) := ep.sendTimeout place
        ({ d with endpoints := d.endpoints.set place ep }, [post], .ok (.extended ep.window.expire))

/-- Extends expire clocks in the order of the reports, up to the first clock that does not fit the
counter. -/
def extendAll (d : Dispatch α) : List StatusUpdate → List (Finding α) →
    Dispatch α × List Post × Except DispatchError (List (StatusOutcome α))
  | u :: us, .running clock :: fs =>
    match d.extendOne (u.place.getD 0) clock with
    | (d, posts, .error e) => (d, posts, .error e)
    | (d, posts, .ok outcome) =>
      let (d, later, outcomes) := extendAll d us fs
      (d, posts ++ later, outcomes.map (outcome :: ·))
  | _ :: us, finding :: fs =>
    let (d, posts, outcomes) := extendAll d us fs
    (d, posts, outcomes.map (Finding.outcome finding :: ·))
  | _, _ => (d, [], .ok [])

/-- Handles reports that arrive together, with one outcome for each. -/
def batch (d : Dispatch α) (updates : List StatusUpdate) :
    Dispatch α × List Post × Except DispatchError (List (StatusOutcome α)) :=
  if d.broken then (d, [], .error .broken)
  else
    let (d, findings) := d.noteAll updates
    let lapse := firstBy (fun a b => Scalar.totalLt a.expiredAt b.expiredAt) (lapses updates findings)
    match firstBy Trip.earlier (trips 0 updates findings), lapse with
    | some trip, lapse =>
      match lapse.filter fun l => l.expiredAt < trip.hostTime with
      | some l => d.abort l.error
      | none =>
        let (d, told, event) := d.fire trip
        (d, told, .ok ((findings.map Finding.outcome).set trip.position (.triggered event)))
    | none, some l => d.abort l.error
    | none, none => d.extendAll updates findings

/-- Handles one report. -/
def status (d : Dispatch α) (u : StatusUpdate) :
    Dispatch α × List Post × Except DispatchError (StatusOutcome α) :=
  let (d, posts, outcomes) := d.batch [u]
  (d, posts, outcomes.map fun os => os.headD .ignored)

end Dispatch

end PrinterMotion
