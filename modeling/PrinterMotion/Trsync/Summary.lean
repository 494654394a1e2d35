/-
Triggers and trials as they are shown.
-/
import PrinterMotion.Json.Value
import PrinterMotion.Text.Columns
import PrinterMotion.Trsync.Trial

namespace PrinterMotion

/-- A trigger as a JSON value. -/
def TriggerEvent.toJson (e : TriggerEvent Float) : Json :=
  .object [("endpoint", .ofNat e.endpoint), ("oid", .ofNat e.oid.toNat),
    ("trigger_reason", .ofNat e.reason.toNat), ("clock", .ofNat e.clock.toNat),
    ("host_time", .number e.hostTime), ("generation", .ofNat e.generation)]

/-- The trigger of a trial, and how many commands of each kind it took. -/
def Trial.overview (t : Trial Float) : String :=
  let line (name : String) (tag : UInt32) : String :=
    if t.count tag = 0 then "" else Text.padRight 20 name ++ " " ++ toString (t.count tag) ++ "\n"
  Json.pretty (.optional TriggerEvent.toJson t.dispatch.trigger) ++ "\n" ++
    line "trsync_set_timeout" Trial.tags.setTimeout ++ line "trsync_trigger" Trial.tags.trigger

end PrinterMotion
