/-
Everything that can happen to a step generator from outside: set-up calls, motion and flushes, models that
are changed without telling it, and scan windows that are noted by hand. Each of them adds a stepper, exchanges
models, adds to a queue, flushes, or changes the windows on the books.
-/
import PrinterMotion.Proofs.StepGenerator.Fitting

namespace PrinterMotion

variable {α : Type}

namespace StepGenerator

/-- What can be done to a generator. -/
inductive Operation (α : Type) where
  | prepare (c : Setup α)
  | call (c : Call α)
  /-- The model of the first stepper of a name is exchanged for another one. -/
  | remodel (name : String) (model : Model α)
  /-- A scan window takes the place of another one. -/
  | note (new old : α)

/-- Whether a scan window is noted by hand. -/
def Operation.isNote : Operation α → Bool
  | note .. => true
  | _ => false

/-- Whether the generator is told of an operation, so that its windows can follow. -/
def Operation.isTold : Operation α → Bool
  | prepare _ | call _ => true
  | _ => false

/-- The stepper that an operation adds. -/
def Operation.added? : Operation α → Option (Stepper α)
  | prepare c => c.added?
  | _ => none

variable [Scalar α]

/-- The generator after an operation, whether it is refused or not. -/
def operate (g : StepGenerator α) : Operation α → StepGenerator α
  | .prepare c => g.prepare c
  | .call c => g.run c
  | .remodel name model =>
    match g.stepper? name with
    | none => g
    | some s => g.setStepper name { s with model }
  | .note new old => g.replaceScanTime new old

/-- The generator after operations. -/
def operated (g : StepGenerator α) (ops : List (Operation α)) : StepGenerator α := ops.foldl operate g

/-- A generator without steppers, on queues that may have motion already. -/
def attached (toolhead : Queue α) (extras : List (String × Queue α)) : StepGenerator α :=
  { empty with toolhead, extras }

/-- What an operation does to a generator. -/
inductive Operated (g : StepGenerator α) : Operation α → StepGenerator α → Prop where
  | added (s : Stepper α) : Operated g (.prepare (.addStepper s)) (g.addStepper s)
  | fitted {c : Setup α} {g' : StepGenerator α} (hadded : c.added? = none) (hfitted : Fitted g g') :
      Operated g (.prepare c) g'
  | queued {c : Call α} (hflush : c.flushTime? = none) : Operated g (.call c) (g.replay c)
  | flushed (time : α) : Operated g (.call (.flush time)) (g.flush time).1
  | remodelled {name : String} {model : Model α} {members : List (Member α)}
      (models : List.Forall₂ Refitted g.members members)
      (built : model.Built → (∀ m ∈ g.members, m.stepper.model.Built) → ∀ m ∈ members, m.stepper.model.Built) :
      Operated g (.remodel name model) { g with members }
  | noted (new old : α) : Operated g (.note new old) (g.replaceScanTime new old)

theorem operated_operate (g : StepGenerator α) (op : Operation α) : Operated g op (g.operate op) := by
  cases op with
  | prepare c =>
    rcases g.prepare_cases c with ⟨s, rfl⟩ | ⟨hadded, hfitted⟩
    · exact .added s
    · exact .fitted hadded hfitted
  | call c =>
    rcases g.run_cases c with ⟨time, rfl⟩ | ⟨hflush, hsame⟩
    · exact .flushed time
    · rw [operate, hsame]
      exact .queued hflush
  | remodel name model =>
    rw [operate]
    split
    · exact .remodelled (List.forall₂_same.2 fun m _ => .refl m) fun _ hbuilt => hbuilt
    · rename_i s hs
      exact .remodelled (refitted_replaceFirst model hs) fun hmodel hbuilt => built_replaceFirst hmodel hbuilt
  | note new old => exact .noted new old

/-! ## Windows on the books -/

/-- The windows that the steppers were last known to need, with their models. -/
def books (g : StepGenerator α) : List (α × Model α) := g.members.map fun m => (m.window, m.stepper.model)

/-- The generator `g'` has the windows and models of `g`. -/
structure SameBooks (g g' : StepGenerator α) : Prop where
  books : g'.books = g.books
  scanTimes : g'.scanTimes = g.scanTimes
  flushDelay : g'.flushDelay = g.flushDelay

omit [Scalar α] in
theorem SameBut.sameBooks {g g' : StepGenerator α} (h : SameBut g g') : SameBooks g g' := by
  obtain ⟨toolhead, extras, rfl⟩ := h
  exact ⟨rfl, rfl, rfl⟩

/-- A flush refreshes the windows, whether it fails later or not, and leaves them at that. -/
theorem sameBooks_flush (g : StepGenerator α) (time : α) : SameBooks g.refreshWindows (g.flush time).1 := by
  have hheld := (g.sameBut_held time).sameBooks
  have hbooks : ((g.held time).advanceMembers (g.stepTime time) g.refreshWindows.members []).1.map
      (fun m => (m.window, m.stepper.model)) = g.refreshWindows.books := advanceMembers_map (fun _ _ => rfl) ..
  rcases flush_cases g time with ⟨e, heq⟩ | ⟨e, heq⟩ | ⟨report, toolhead, extras, -, heq⟩ <;> rw [heq]
  · exact hheld
  · exact ⟨hbooks, hheld.scanTimes, hheld.flushDelay⟩
  · exact ⟨hbooks, hheld.scanTimes, hheld.flushDelay⟩

end StepGenerator

end PrinterMotion
