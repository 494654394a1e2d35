/-
What host and controllers say to each other about a trigger: commands to an object on a controller, the
link that carries them, and the reports the object sends back.
-/
namespace PrinterMotion

/-- Why a controller was told to stop, or stopped by itself. -/
abbrev Reason := UInt32

namespace Reason

/-- The endstop was hit. -/
def endstopHit : Reason := 1

/-- No news came from the host in time. -/
def commsTimeout : Reason := 2

/-- The host asked for it. -/
def hostRequest : Reason := 3

end Reason

/-- A command to a controller: its tag and parameters, with the reading before which it is not to be
sent and the reading by which it is needed. -/
structure Command where
  /-- The command queue on the connection. -/
  queue : UInt32
  fields : List UInt32
  minClock : UInt64
  reqClock : UInt64
deriving Repr, DecidableEq

/-- The tag of a command. -/
def Command.tag? (c : Command) : Option UInt32 := c.fields.head?

/-- A link to a controller, as the fate of the commands handed to it: the next ones are accepted as
`next` says, and all later ones as `after` says. -/
structure Link where
  next : List Bool
  after : Bool
deriving Repr, DecidableEq

namespace Link

/-- The link that accepts everything. -/
def intact : Link := ⟨[], true⟩

/-- The link that accepts nothing. -/
def closed : Link := ⟨[], false⟩

/-- Whether the next command is accepted, and the link after it. -/
def offer (l : Link) : Bool × Link :=
  match l.next with
  | accepted :: rest => (accepted, ⟨rest, l.after⟩)
  | [] => (l.after, l)

end Link

/-- A command that was handed to the link of an endpoint. -/
structure Post where
  /-- The place of the endpoint in its dispatch. -/
  endpoint : Nat
  command : Command
  accepted : Bool
deriving Repr, DecidableEq

/-- What an object on a controller reports: whether it can still trigger, why it did, and the low half
of the clock at that time. -/
structure StatusReport where
  oid : UInt32
  canTrigger : Bool
  reason : Reason
  clock : UInt32
deriving Repr, DecidableEq

/-- Reads a report from the fields of its message, which are the tag, the object, whether it can
trigger, the reason and the clock. -/
def StatusReport.ofFields? : List UInt32 → Option StatusReport
  | [_, oid, canTrigger, reason, clock] => some ⟨oid, canTrigger != 0, reason, clock⟩
  | _ => none

end PrinterMotion
