/-
Settings of trigger synchronisation, and the clock windows they give for a move.
-/
import PrinterMotion.Trsync.Endpoint

namespace PrinterMotion

/-- How long a controller goes on without news from the host, and how early its time is extended. -/
structure TrsyncSettings (α : Type) where
  /-- Seconds, when several controllers take part. -/
  timeout : α
  /-- Seconds, when only one takes part. -/
  singleTimeout : α
  /-- The fraction of the timeout below which the time left is extended. -/
  extendFraction : α
deriving Repr

namespace TrsyncSettings

variable {α : Type} [Scalar α]

/-- The settings used when none are configured. -/
def default : TrsyncSettings α := ⟨0.025, 0.250, 0.4⟩

/-- The timeout for a number of controllers. -/
def expireTimeout (s : TrsyncSettings α) (controllers : Nat) : α :=
  if 1 < controllers then s.timeout else s.singleTimeout

/-- The clock window of a move that begins at a host time, if its expire clock fits the counter. -/
def window? (s : TrsyncSettings α) (controllers : Nat) (time : α) (clock : ClockEstimate α) :
    Option ClockWindow :=
  let expireTicks := clock.ticks (s.expireTimeout controllers)
  let minExtend := Scalar.floor (Scalar.ofNat expireTicks.toNat * s.extendFraction + 0.5)
  let start := clock.ofTime time
  (Clock.add? start expireTicks).map fun expire =>
    ⟨start, expire, expireTicks, Clock.clampWord minExtend⟩

end TrsyncSettings

end PrinterMotion
