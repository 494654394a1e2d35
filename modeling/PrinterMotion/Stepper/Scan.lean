/-
Which parts of which segments are searched for steps. A segment that moves the stepper is searched from
the last flush on; segments that do not are searched only as far as the windows of the model reach into
them from motion that does.
-/
import PrinterMotion.Stepper.Basic

namespace PrinterMotion

/-- A search of one segment between two absolute times. -/
structure Visit (α : Type) where
  segment : Nat
  start : α
  stop : α
  /-- For a segment that moves the stepper, until when it does so. -/
  activeUntil : Option α
deriving Repr

namespace Visit

variable {α : Type} [Scalar α]

/-- The first segment of the lead-in that ends with segment `last`: at most `more` segments further
back, and none once one starts at or before `start`. -/
@[specialize] def leadFrom (segments : Array (Segment α)) (start : α) : (last more : Nat) → Nat
  | last, 0 => last
  | 0, _ + 1 => 0
  | last + 1, more + 1 =>
    match segments[last + 1]? with
    | some s => if start < s.start then leadFrom segments start last more else last + 1
    | none => last + 1

/-- What a scan needs to know: the axes and windows of the model, where the last flush ended, and how
far this one goes. -/
structure Scope (α : Type) where
  axes : AxisSet
  before : α
  after : α
  flushed : α
  time : α

/-- The searches of a list of segments, the first of which has index `i`. Trailing steps are due until
`forced`, and `skipped` segments in a row have not been searched to their end. -/
@[specialize] def plan (scope : Scope α) (segments : Array (Segment α)) :
    List (Segment α) → (i : Nat) → (forced : α) → (skipped : Nat) → List (Visit α)
  | [], _, _, _ => []
  | m :: rest, i, forced, skipped =>
    if scope.axes.meets m.direction then
      let lead : List (Visit α) :=
        if 0 < skipped ∧ (0.0 : α) < scope.before then
          let start := Scalar.max (Scalar.max (m.start - scope.before) scope.flushed) forced
          let first := leadFrom segments start (i - 1) (skipped - 1)
          (List.range' first (i - first)).map fun back => ⟨back, start, scope.time, none⟩
        else []
      if scope.time ≤ m.finish then lead ++ [⟨i, scope.flushed, scope.time, some scope.time⟩]
      else
        lead ++ ⟨i, scope.flushed, scope.time, some m.finish⟩ ::
          plan scope segments rest (i + 1) (m.finish + scope.after) 0
    else
      let trails := m.start < forced
      let trail : List (Visit α) :=
        if trails then [⟨i, scope.flushed, Scalar.min forced scope.time, none⟩] else []
      if scope.time + scope.before ≤ m.finish then trail
      else trail ++ plan scope segments rest (i + 1) forced (if trails then 1 else skipped + 1)

end Visit

/-- The searches of one flush, in order. -/
@[specialize] def StepTracker.visits {α : Type} [Scalar α] (s : StepTracker α) (k : Kinematics α)
    (q : Queue α) (time : α) : List (Visit α) :=
  match q.firstAfter? s.flushed with
  | none => []
  | some first =>
    Visit.plan ⟨k.axes, k.before, k.after, s.flushed, time⟩ q.active
      (q.active.toList.drop first) first (s.lastActive + k.after) 0

end PrinterMotion
