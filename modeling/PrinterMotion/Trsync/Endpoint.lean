/-
One controller's part in a shared stop condition: the object on it, the clock up to which it goes on
without news, and what is known of its clock.
-/
import PrinterMotion.Clock
import PrinterMotion.Trsync.Message

namespace PrinterMotion

/-- The tags of the messages of one controller's objects. -/
structure TrsyncTags where
  setTimeout : UInt32
  trigger : UInt32
  state : UInt32
deriving Repr, DecidableEq

/-- The clocks that an endpoint starts a move with. -/
structure ClockWindow where
  lastStatus : UInt64
  expire : UInt64
  /-- The time from a report to the expire clock it is extended to. -/
  expireTicks : UInt64
  /-- The time left below which the expire clock is extended. -/
  minExtend : UInt64
deriving Repr, DecidableEq

/-- One controller's part in a dispatch. -/
structure Endpoint (α : Type) where
  queue : UInt32
  oid : UInt32
  tags : TrsyncTags
  link : Link
  window : ClockWindow
  clock : ClockEstimate α
  /-- Whether it has been told to stop, or stopped by itself, since it was armed. -/
  notified : Bool
deriving Repr

namespace Endpoint

variable {α : Type}

/-- The command that moves the expire clock of the controller. -/
def timeoutCommand (ep : Endpoint α) : Command :=
  ⟨ep.queue, [ep.tags.setTimeout, ep.oid, Clock.low ep.window.expire], 0, ep.window.expire⟩

/-- The command to stop. -/
def triggerCommand (ep : Endpoint α) (reason : Reason) : Command :=
  ⟨ep.queue, [ep.tags.trigger, ep.oid, reason], 0, 0⟩

/-- Hands a command to the link. -/
def hand (ep : Endpoint α) (place : Nat) (command : Command) : Endpoint α × Post :=
  let (accepted, link) := ep.link.offer
  ({ ep with link }, ⟨place, command, accepted⟩)

/-- Tells the controller its expire clock. -/
def sendTimeout (ep : Endpoint α) (place : Nat) : Endpoint α × Post :=
  ep.hand place ep.timeoutCommand

/-- Tells the controller to stop, which is not tried again if it fails. -/
def sendTrigger (ep : Endpoint α) (place : Nat) (reason : Reason) : Endpoint α × Post :=
  { ep with notified := true }.hand place (ep.triggerCommand reason)

/-- The endpoint with the clocks of a new move. -/
def setup (ep : Endpoint α) (window : ClockWindow) (clock : ClockEstimate α) : Endpoint α :=
  { ep with window, clock := clock.observe window.lastStatus }

/-- The endpoint with a new clock estimate, which keeps the latest reading seen. -/
def updateClock (ep : Endpoint α) (clock : ClockEstimate α) : Endpoint α :=
  { ep with clock := clock.observe ep.clock.lastClock }

end Endpoint

end PrinterMotion
