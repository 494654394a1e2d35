/-
A queue of events by time. Of two events of the same time, the one scheduled first comes first.
-/
import PrinterMotion.Simulation.Instant

namespace PrinterMotion

/-- An event with its time and its number in the order of scheduling. -/
structure Scheduled (β : Type) where
  time : Instant
  number : Nat
  event : β
deriving Repr, DecidableEq

/-- Pending events, the next one first. -/
structure EventQueue (β : Type) where
  pending : List (Scheduled β)
  /-- The number of the next event that is scheduled. -/
  nextNumber : Nat
deriving Repr

namespace EventQueue

variable {β : Type}

/-- The queue without events. -/
def empty : EventQueue β := ⟨[], 0⟩

/-- Puts an event behind all that are not later. -/
def insert (e : Scheduled β) : List (Scheduled β) → List (Scheduled β)
  | [] => [e]
  | f :: rest => if e.time < f.time then e :: f :: rest else f :: insert e rest

/-- Schedules an event. -/
def schedule (q : EventQueue β) (time : Instant) (event : β) : EventQueue β :=
  ⟨insert ⟨time, q.nextNumber, event⟩ q.pending, q.nextNumber + 1⟩

/-- Takes the next event. -/
def pop (q : EventQueue β) : Option (Scheduled β) × EventQueue β :=
  match q.pending with
  | [] => (none, q)
  | e :: rest => (some e, { q with pending := rest })

/-- Takes the next event if it is accepted. -/
def popIf (q : EventQueue β) (accept : Scheduled β → Bool) : Option (Scheduled β) × EventQueue β :=
  match q.pending with
  | [] => (none, q)
  | e :: rest => if accept e then (some e, { q with pending := rest }) else (none, q)

/-- Takes events as long as the next one is accepted. -/
def popWhile (q : EventQueue β) (accept : Scheduled β → Bool) : List (Scheduled β) × EventQueue β :=
  (q.pending.takeWhile accept, { q with pending := q.pending.dropWhile accept })

/-- The number of pending events. -/
def size (q : EventQueue β) : Nat := q.pending.length

/-- Whether nothing is pending. -/
def isEmpty (q : EventQueue β) : Bool := q.pending.isEmpty

end EventQueue

end PrinterMotion
