/-
Trying out a dispatch against controllers that report in turn, each of which triggers at a time of its
own.
-/
import PrinterMotion.Trsync.Batch
import PrinterMotion.Trsync.Settings

namespace PrinterMotion

/-- A controller that takes part in a trial. -/
structure TrialController where
  place : Nat
  /-- The clock from which on it has triggered. -/
  trigger : UInt64
deriving Repr, DecidableEq

/-- A dispatch on trial, with the commands handed to links so far. -/
structure Trial (α : Type) where
  dispatch : Dispatch α
  posts : List Post
deriving Repr

namespace Trial

variable {α : Type} [Scalar α]

/-- The tags of the messages. -/
def tags : TrsyncTags := ⟨0x40, 0x41, 0x42⟩

/-- Ticks between the reports of a controller. -/
def interval : UInt64 := 5000

/-- The clock of all controllers. -/
def clock : ClockEstimate α := .ofFrequency 1000000.0

/-- The bound on the number of rounds. -/
def roundLimit : Nat := twoTo 62

/-- A result that also hands commands to links. -/
def after {β : Type} (t : Trial α) (r : Dispatch α × List Post × Except DispatchError β) :
    Except DispatchError (Trial α × β) :=
  match r with
  | (dispatch, posts, .ok b) => .ok (⟨dispatch, t.posts ++ posts⟩, b)
  | (_, _, .error e) => .error e

/-- Adds a controller to a move that a number of them take part in. -/
def addController (settings : TrsyncSettings α) (count : Nat) (t : Trial α) (place : Nat) :
    Except DispatchError (Trial α) := do
  let oid := UInt32.ofNat place
  let (dispatch, registered) := t.dispatch.register .intact oid oid tags
  let _ ← registered
  match settings.window? count 0.0 clock with
  | none => throw .clockOverflow
  | some window =>
    let (dispatch, ready) := dispatch.setup place window clock
    ready
    return { t with dispatch }

/-- What a controller reports at a clock. -/
def reportAt (c : TrialController) (clock : UInt64) : StatusReport :=
  let triggered := c.trigger ≤ clock
  ⟨UInt32.ofNat c.place, !triggered, if triggered then Reason.endstopHit else 0, Clock.low clock⟩

/-- Lets a controller report, unless the dispatch is idle. -/
def report (clock : UInt64) (t : Trial α) (c : TrialController) : Except DispatchError (Trial α) :=
  if t.dispatch.active then
    (t.after (t.dispatch.status ⟨some c.place, reportAt c clock⟩)).map Prod.fst
  else .ok t

/-- Lets the controllers report in turn until the dispatch is idle; the first argument bounds the number
of rounds. -/
def rounds (controllers : List TrialController) :
    Nat → UInt64 → Trial α → Except DispatchError (Trial α)
  | 0, _, t => .ok t
  | fuel + 1, last, t =>
    if t.dispatch.active then
      match Clock.add? last interval with
      | none => .error .clockOverflow
      | some clock =>
        match controllers.foldlM (report clock) t with
        | .error e => .error e
        | .ok t => rounds controllers fuel clock t
    else .ok t

/-- Runs a trial with controllers that trigger after given numbers of seconds. -/
def run (settings : TrsyncSettings α) (triggers : List α) : Except DispatchError (Trial α) := do
  let t : Trial α := ⟨Dispatch.empty, []⟩
  let t ← (List.range triggers.length).foldlM (addController settings triggers.length) t
  let (t, _) ← t.after (t.dispatch.start Reason.endstopHit)
  let controllers := triggers.zipIdx.map fun (seconds, place) => ⟨place, clock.ticks seconds⟩
  let t ← rounds controllers roundLimit 0 t
  let (t, _) ← t.after t.dispatch.stop
  return t

/-- The number of commands with a tag. -/
def count (t : Trial α) (tag : UInt32) : Nat := t.posts.countP fun p => p.command.tag? = some tag

end Trial

end PrinterMotion
