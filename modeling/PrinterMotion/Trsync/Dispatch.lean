/-
A stop condition shared by several controllers. Each stops by itself when its endstop is hit or its
expire clock passes; the dispatch arms them together, keeps their expire clocks ahead of their reports,
and tells all others to stop as soon as one has triggered. Operations return the dispatch and the
commands they handed to links, in order.
-/
import PrinterMotion.Trsync.Endpoint

namespace PrinterMotion

/-- The trigger that stopped a dispatch. -/
structure TriggerEvent (α : Type) where
  /-- The place of the endpoint that won. -/
  endpoint : Nat
  oid : UInt32
  reason : Reason
  clock : UInt64
  /-- The host time of the clock. -/
  hostTime : α
  generation : Nat
deriving Repr

/-- Why an operation on a dispatch fails. -/
inductive DispatchError where
  | alreadyActive
  | noEndpoints
  /-- A controller reported a clock behind its expire clock: it has stopped by itself. -/
  | lapsed (oid : UInt32) (clock expire : UInt64)
  /-- An endpoint could not be armed. -/
  | unreachable (oid : UInt32)
  /-- The sum of a clock and a number of ticks does not fit the counter. -/
  | clockOverflow
  /-- An earlier operation broke off in the middle. -/
  | broken
deriving Repr, DecidableEq

/-- The wording of an error. -/
def DispatchError.message : DispatchError → String
  | .alreadyActive => "Trigger dispatch is already active"
  | .noEndpoints => "Trigger dispatch has no endpoints"
  | .lapsed oid clock expire =>
    s!"trsync oid {oid.toNat} reported clock {clock.toNat} past its expire clock {expire.toNat}"
  | .unreachable oid => s!"Failed to arm trsync oid {oid.toNat}: Transport closed"
  | .clockOverflow => "Clock does not fit the counter"
  | .broken => "Trigger dispatch lock poisoned"

/-- A stop condition shared by several controllers. -/
structure Dispatch (α : Type) where
  active : Bool
  canTrigger : Bool
  /-- What the others are told when one controller triggers. -/
  reason : Reason
  /-- How often it was started. -/
  generation : Nat
  /-- In the order of registration, which decides between triggers of the same time. -/
  endpoints : List (Endpoint α)
  /-- The trigger that ended the latest generation. -/
  trigger : Option (TriggerEvent α)
  /-- Whether an operation broke off in the middle; every later one is refused. -/
  broken : Bool
deriving Repr

namespace Dispatch

variable {α : Type}

/-- The dispatch without endpoints. -/
def empty : Dispatch α := ⟨false, false, 0, 0, [], none, false⟩

/-- Ends the generation. -/
def halt (d : Dispatch α) : Dispatch α := { d with active := false, canTrigger := false }

/-- Tells the endpoints that have not been told yet to stop. The first of them has the given place. -/
def tell (reason : Reason) (place : Nat) : List (Endpoint α) → List (Endpoint α) × List Post
  | [] => ([], [])
  | ep :: rest =>
    let (others, posts) := tell reason (place + 1) rest
    if ep.notified then (ep :: others, posts)
    else
      let (ep, post) := ep.sendTrigger place reason
      (ep :: others, post :: posts)

/-- Tells all endpoints that have not been told yet to stop. -/
def broadcast (d : Dispatch α) (reason : Reason) : Dispatch α × List Post :=
  let (endpoints, posts) := tell reason 0 d.endpoints
  ({ d with endpoints }, posts)

/-- Tells endpoints their expire clocks, up to the first that cannot be reached, whose object is
returned. -/
def arm (place : Nat) : List (Endpoint α) → List (Endpoint α) × List Post × Option UInt32
  | [] => ([], [], none)
  | ep :: rest =>
    let (ep, post) := { ep with notified := false }.sendTimeout place
    if post.accepted then
      let (rest, posts, failed) := arm (place + 1) rest
      (ep :: rest, post :: posts, failed)
    else (ep :: rest, [post], some ep.oid)

/-- Registers an object of a controller, and returns its place. -/
def register [Scalar α] (d : Dispatch α) (link : Link) (queue oid : UInt32) (tags : TrsyncTags) :
    Dispatch α × Except DispatchError Nat :=
  if d.broken then (d, .error .broken)
  else if d.active then (d, .error .alreadyActive)
  else
    let ep : Endpoint α :=
      ⟨queue, oid, tags, link, ⟨0, 0, 0, 0⟩, ClockEstimate.ofFrequency 1.0, false⟩
    ({ d with endpoints := d.endpoints ++ [ep] }, .ok d.endpoints.length)

/-- Gives an endpoint the clocks of the next generation. -/
def setup (d : Dispatch α) (place : Nat) (window : ClockWindow) (clock : ClockEstimate α) :
    Dispatch α × Except DispatchError Unit :=
  if d.broken then (d, .error .broken)
  else if d.active then (d, .error .alreadyActive)
  else ({ d with endpoints := d.endpoints.modify place fun ep => ep.setup window clock }, .ok ())

/-- Gives an endpoint a new clock estimate. -/
def updateClock (d : Dispatch α) (place : Nat) (clock : ClockEstimate α) :
    Dispatch α × Except DispatchError Unit :=
  if d.broken then (d, .error .broken)
  else ({ d with endpoints := d.endpoints.modify place fun ep => ep.updateClock clock }, .ok ())

/-- Arms all endpoints. If one cannot be reached, the generation ends at once. -/
def start (d : Dispatch α) (reason : Reason) : Dispatch α × List Post × Except DispatchError Unit :=
  if d.broken then (d, [], .error .broken)
  else if d.active then (d, [], .error .alreadyActive)
  else if d.endpoints.isEmpty then (d, [], .error .noEndpoints)
  else
    let (endpoints, posts, failed) := arm 0 d.endpoints
    let d := { d with
      active := true, canTrigger := true, reason, generation := d.generation + 1, endpoints,
      trigger := none }
    match failed with
    | none => (d, posts, .ok ())
    | some oid =>
      let (d, told) := d.halt.broadcast Reason.hostRequest
      (d, posts ++ told, .error (.unreachable oid))

/-- Ends the generation at the request of the host; false if none is under way. -/
def stop (d : Dispatch α) : Dispatch α × List Post × Except DispatchError Bool :=
  if d.broken then (d, [], .error .broken)
  else if d.active then
    let (d, told) := d.halt.broadcast Reason.hostRequest
    (d, told, .ok true)
  else (d, [], .ok false)

/-- Closes the links of all endpoints. -/
def closeLinks (d : Dispatch α) : Dispatch α :=
  { d with endpoints := d.endpoints.map fun ep => { ep with link := .closed } }

/-- What a question about a dispatch is answered. -/
def ask {β : Type} (d : Dispatch α) (question : Dispatch α → β) : Except DispatchError β :=
  if d.broken then .error .broken else .ok (question d)

/-- One line on the state. -/
def summary (d : Dispatch α) : String :=
  if d.broken then "TrDispatch \x7b state: \"<poisoned>\" \x7d"
  else
    "TrDispatch \x7b is_active: " ++ toString d.active ++ ", generation: " ++ toString d.generation ++
      ", endpoints: " ++ toString d.endpoints.length ++ " \x7d"

end Dispatch

end PrinterMotion
