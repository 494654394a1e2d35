/-
Runs of the step generator: calls that queue motion and flushes in between. A flush holds the queues until
its step time, advances the steppers, and retires what ends by its flush delay before that, unless a queue
refuses to be held or a stepper fails. What each part does to the queues and to the steppers is said here
once, for any numbers.
-/
import PrinterMotion.StepGenerator.Flush

namespace PrinterMotion.StepGenerator

variable {α : Type}

/-! ## Queues by reference -/

theorem lookup_putExtra_self (name : String) (q : Queue α) (extras : List (String × Queue α)) :
    (putExtra name q extras).lookup name = some q := by
  induction extras with
  | nil => simp [putExtra]
  | cons e rest ih =>
    obtain ⟨n, old⟩ := e
    by_cases hn : n = name
    · simp [putExtra, hn]
    · have hne : (name == n) = false := by simpa using Ne.symm hn
      rw [putExtra, if_neg hn, List.lookup_cons, hne]
      exact ih

theorem lookup_putExtra_ne {name other : String} (h : other ≠ name) (q : Queue α)
    (extras : List (String × Queue α)) : (putExtra name q extras).lookup other = extras.lookup other := by
  induction extras with
  | nil => simp [putExtra, h]
  | cons e rest ih =>
    obtain ⟨n, old⟩ := e
    by_cases hn : n = name
    · have hne : (other == n) = false := by simpa [hn] using h
      rw [putExtra, if_pos hn, List.lookup_cons, List.lookup_cons, hne]
    · rw [putExtra, if_neg hn, List.lookup_cons, List.lookup_cons, ih]

@[simp] theorem queue_setQueue_self (g : StepGenerator α) (ref : QueueRef) (q : Queue α) :
    (g.setQueue ref q).queue ref = q := by
  cases ref with
  | toolhead => rfl
  | extra name => simp [setQueue, queue, lookup_putExtra_self]

theorem queue_setQueue_ne (g : StepGenerator α) {ref other : QueueRef} (h : other ≠ ref) (q : Queue α) :
    (g.setQueue ref q).queue other = g.queue other := by
  cases ref with
  | toolhead => cases other with
    | toolhead => exact absurd rfl h
    | extra name => rfl
  | extra name => cases other with
    | toolhead => rfl
    | extra name' =>
      have hne : name' ≠ name := fun heq => h (by rw [heq])
      simp [setQueue, queue, lookup_putExtra_ne hne]

/-- What holds of every queue, and of one that is put in its place, holds of every queue then. -/
theorem forall_queue_setQueue {P : QueueRef → Queue α → Prop} {g : StepGenerator α} {ref : QueueRef} {q : Queue α}
    (h : ∀ other, P other (g.queue other)) (hq : P ref q) : ∀ other, P other ((g.setQueue ref q).queue other) := by
  intro other
  by_cases ho : other = ref
  · rw [ho, queue_setQueue_self]
    exact hq
  · rw [queue_setQueue_ne g ho]
    exact h other

/-- The generator `g'` differs from `g` in its queues alone. -/
def SameBut (g g' : StepGenerator α) : Prop := ∃ toolhead extras, g' = { g with toolhead, extras }

theorem SameBut.refl (g : StepGenerator α) : SameBut g g := ⟨g.toolhead, g.extras, rfl⟩

theorem SameBut.trans {g g' g'' : StepGenerator α} (h : SameBut g g') (h' : SameBut g' g'') : SameBut g g'' := by
  obtain ⟨toolhead, extras, rfl⟩ := h
  obtain ⟨toolhead', extras', rfl⟩ := h'
  exact ⟨toolhead', extras', rfl⟩

theorem sameBut_setQueue (g : StepGenerator α) (ref : QueueRef) (q : Queue α) : SameBut g (g.setQueue ref q) := by
  cases ref with
  | toolhead => exact ⟨q, g.extras, rfl⟩
  | extra name => exact ⟨g.toolhead, putExtra name q g.extras, rfl⟩

/-- The names of the steppers, in the order in which they were added. -/
def registered (g : StepGenerator α) : List String := g.members.map (·.stepper.name)

theorem SameBut.registered {g g' : StepGenerator α} (h : SameBut g g') : g'.registered = g.registered := by
  obtain ⟨toolhead, extras, rfl⟩ := h
  rfl

/-- Changing queues one after the other leaves what each change leaves. -/
theorem foldl_setQueue (P : QueueRef → Queue F → Prop) (f : Queue F → Queue F) :
    ∀ (refs : List QueueRef) (g : StepGenerator F), (∀ ref ∈ refs, ∀ q, P ref q → P ref (f q)) →
      (∀ ref, P ref (g.queue ref)) →
      let g' := refs.foldl (fun g ref => g.setQueue ref (f (g.queue ref))) g
      SameBut g g' ∧ ∀ ref, P ref (g'.queue ref)
  | [], g, _, h => ⟨.refl g, h⟩
  | ref :: rest, g, hP, h => by
    have hset := forall_queue_setQueue h (hP ref List.mem_cons_self _ (h ref))
    obtain ⟨hsame, hall⟩ := foldl_setQueue P f rest (g.setQueue ref (f (g.queue ref)))
      (fun other hmem => hP other (List.mem_cons_of_mem _ hmem)) hset
    exact ⟨(sameBut_setQueue g ref _).trans hsame, hall⟩

variable [Scalar α]

/-! ## Calls -/

/-- A call on a generator whose steppers are there. -/
inductive Call (α : Type) where
  | move (time : α) (start finish : Coord α) (maxVelocity accel : α)
  | extrude (ref : QueueRef) (time : α) (timing : Timing α) (start distance : α)
  | flush (time : α)

/-- The generator after a call, whether it is refused or not. -/
def run (g : StepGenerator α) : Call α → StepGenerator α
  | .move time start finish maxVelocity accel => (g.queueMove time start finish maxVelocity accel).1
  | .extrude ref time timing start distance => (g.queueExtrusion ref time timing start distance).1
  | .flush time => (g.flush time).1

/-- The generator after a call that is left out if it is a flush. -/
def replay (g : StepGenerator α) : Call α → StepGenerator α
  | .flush _ => g
  | c => g.run c

/-- The generator after calls. -/
def after (g : StepGenerator α) (calls : List (Call α)) : StepGenerator α := calls.foldl run g

/-- The generator after calls without the flushes among them. -/
def unflushed (g : StepGenerator α) (calls : List (Call α)) : StepGenerator α := calls.foldl replay g

/-- The motion that a call queues, and where. -/
def Call.motion : Call α → Option (QueueRef × Queue.Trapezoid α)
  | .move time start finish maxVelocity accel =>
    let d := displacement start finish
    let distance := Scalar.sqrt (d.x * d.x + d.y * d.y + d.z * d.z)
    if distance == (0.0 : α) then none
    else some (.toolhead,
      (Timing.plan distance maxVelocity accel).along time start ⟨d.x / distance, d.y / distance, d.z / distance⟩)
  | .extrude ref time timing start distance =>
    if timing.distance == (0.0 : α) || distance == (0.0 : α) then none
    else some (ref, (timing.scaled (distance / timing.distance)).along time ⟨start, 0.0, 0.0⟩
      ⟨1.0, if (0.0 : α) < distance then 1.0 else 0.0, 0.0⟩)
  | .flush _ => none

/-- The time of a flush. -/
def Call.flushTime? : Call α → Option α
  | .flush time => some time
  | _ => none

/-- Motion goes to the end of its queue, and nothing else changes. -/
theorem replay_eq (g : StepGenerator α) (c : Call α) : g.replay c =
    match c.motion with
    | some (ref, t) => g.setQueue ref ((g.queue ref).append t).1
    | none => g := by
  cases c with
  | flush time => rfl
  | move time start finish maxVelocity accel =>
    simp only [replay, run, queueMove, Call.motion]
    split
    · rfl
    · simp only [queue]
      split <;> rename_i h <;> simp only [h] <;> rfl
  | extrude ref time timing start distance =>
    simp only [replay, run, queueExtrusion, Call.motion]
    split <;> rfl

theorem sameBut_replay (g : StepGenerator α) (c : Call α) : SameBut g (g.replay c) := by
  rw [replay_eq]
  cases c.motion with
  | none => exact .refl g
  | some motion => exact sameBut_setQueue g motion.1 _

/-- A call is a flush, or it stays in a replay. -/
theorem run_cases (g : StepGenerator α) (c : Call α) : (∃ time, c = .flush time) ∨
    c.flushTime? = none ∧ g.run c = g.replay c := by
  cases c with
  | flush time => exact .inl ⟨time, rfl⟩
  | move => exact .inr ⟨rfl, rfl⟩
  | extrude => exact .inr ⟨rfl, rfl⟩

/-! ## Scan windows -/

theorem foldl_replaceScanTime_same : ∀ (changes : List (α × α)) (g : StepGenerator α), ∃ scanTimes flushDelay,
    changes.foldl (fun g (new, old) => g.replaceScanTime new old) g = { g with scanTimes, flushDelay }
  | [], g => ⟨g.scanTimes, g.flushDelay, rfl⟩
  | (new, old) :: rest, g => foldl_replaceScanTime_same rest (g.replaceScanTime new old)

/-- Refreshing changes the windows that are recorded, and nothing else. -/
theorem refreshWindows_same (g : StepGenerator α) : ∃ scanTimes flushDelay, g.refreshWindows = { g with
    members := g.members.map fun m => { m with window := m.stepper.model.scanWindow }, scanTimes, flushDelay } :=
  foldl_replaceScanTime_same _ _

theorem refreshWindows_members (g : StepGenerator α) : g.refreshWindows.members =
    g.members.map fun m => { m with window := m.stepper.model.scanWindow } := by
  obtain ⟨scanTimes, flushDelay, heq⟩ := refreshWindows_same g
  rw [heq]

/-- Refreshing windows that are up to date changes nothing, as long as none is missing. -/
theorem refreshWindows_of_current {g : StepGenerator α} (h : ∀ m ∈ g.members, m.window = m.stepper.model.scanWindow)
    (hnum : ∀ m ∈ g.members, Scalar.isNumber m.window = true) : g.refreshWindows = g := by
  have hmembers : g.members.map (fun m => { m with window := m.stepper.model.scanWindow }) = g.members := by
    refine (List.map_congr_left fun m hm => ?_).trans (List.map_id g.members)
    rw [← h m hm]
    rfl
  have hchanges : g.members.filterMap (fun m =>
      let window := m.stepper.model.scanWindow
      if window != m.window then some (window, m.window) else none) = [] := by
    rw [List.filterMap_eq_nil_iff]
    intro m hm
    have hsame : (m.window == m.window) = true := hnum m hm
    simp [← h m hm, bne, hsame]
  simp only [refreshWindows, hmembers, hchanges, List.foldl_nil]

theorem registered_refreshWindows (g : StepGenerator α) : g.refreshWindows.registered = g.registered := by
  rw [registered, refreshWindows_members, List.map_map]
  rfl

/-! ## Flushes -/

/-- The time up to which a flush generates steps. -/
def stepTime (g : StepGenerator α) (time : α) : α :=
  Scalar.max (time - g.refreshWindows.flushDelay) g.refreshWindows.lastFlush

/-- The generator with whose queues a flush advances the steppers. -/
def held (g : StepGenerator α) (time : α) : StepGenerator α :=
  (holdQueues (g.stepTime time) g.refreshWindows.servedQueues g.refreshWindows).1

/-- Why a queue refuses to be held by a flush. -/
def refusal? (g : StepGenerator α) (time : α) : Option (GeneratorError α) :=
  (holdQueues (g.stepTime time) g.refreshWindows.servedQueues g.refreshWindows).2

theorem sameBut_holdQueues (time : α) : ∀ (refs : List QueueRef) (g : StepGenerator α),
    SameBut g (holdQueues time refs g).1
  | [], g => .refl g
  | ref :: rest, g => by
    rw [holdQueues]
    split
    · exact .refl g
    · exact (sameBut_setQueue g ref _).trans (sameBut_holdQueues time rest _)

theorem sameBut_held (g : StepGenerator α) (time : α) : SameBut g.refreshWindows (g.held time) :=
  sameBut_holdQueues (g.stepTime time) g.refreshWindows.servedQueues g.refreshWindows

theorem held_members (g : StepGenerator α) (time : α) : (g.held time).members = g.refreshWindows.members := by
  obtain ⟨toolhead, extras, hsame⟩ := g.sameBut_held time
  rw [hsame]

theorem sameBut_finalizeQueues (g : StepGenerator α) (time clear : α) : SameBut g (g.finalizeQueues time clear) :=
  (foldl_setQueue (fun _ _ => True) (fun q => q.finalize time clear) g.servedQueues g (fun _ _ _ _ => trivial)
    fun _ => trivial).1

/-- What a flush does: it ends at a queue that refuses to be held, or at a stepper that fails, and otherwise motion
is retired. -/
theorem flush_eq_held (g : StepGenerator α) (time : α) : g.flush time =
    match g.refusal? time with
    | some e => (g.held time, .error e)
    | none =>
      match (g.held time).advanceMembers (g.stepTime time) g.refreshWindows.members [] with
      | (members, .error e) => ({ g.held time with members }, .error e)
      | (members, .ok report) =>
        ({ { g.held time with members }.finalizeQueues (g.stepTime time - g.refreshWindows.flushDelay)
            (g.stepTime time - historyTime) with lastFlush := g.stepTime time }, .ok report) := by
  have hstep : Scalar.max (time - g.refreshWindows.flushDelay) g.refreshWindows.lastFlush = g.stepTime time := rfl
  obtain ⟨toolhead, extras, hsame⟩ := g.sameBut_held time
  have hdelay : (g.held time).flushDelay = g.refreshWindows.flushDelay := by rw [hsame]
  unfold flush refusal?
  dsimp only
  rw [hstep]
  rcases hhold : holdQueues (g.stepTime time) g.refreshWindows.servedQueues g.refreshWindows with ⟨g', _ | e⟩ <;>
    obtain rfl : g' = g.held time := (congrArg Prod.fst hhold).symm
  · dsimp only
    rewrite [← held_members g time, ← hdelay]
    rfl
  · rfl

/-- So a flush that fails leaves the queues held, and maybe some steppers advanced. -/
theorem flush_cases (g : StepGenerator α) (time : α) :
    (∃ e, g.flush time = (g.held time, .error e)) ∨
    (∃ e, g.flush time = ({ g.held time with
        members := ((g.held time).advanceMembers (g.stepTime time) g.refreshWindows.members []).1 }, .error e)) ∨
    ∃ report toolhead extras,
      ((g.held time).advanceMembers (g.stepTime time) g.refreshWindows.members []).2 = .ok report ∧
      g.flush time = ({ g.held time with
        toolhead, extras
        members := ((g.held time).advanceMembers (g.stepTime time) g.refreshWindows.members []).1
        lastFlush := g.stepTime time }, .ok report) := by
  rw [flush_eq_held]
  cases g.refusal? time with
  | some e => exact .inl ⟨e, rfl⟩
  | none =>
    rcases hadv : (g.held time).advanceMembers (g.stepTime time) g.refreshWindows.members [] with ⟨members, e | report⟩
    · exact .inr (.inl ⟨e, rfl⟩)
    · obtain ⟨toolhead, extras, hretired⟩ := sameBut_finalizeQueues { g.held time with members }
        (g.stepTime time - g.refreshWindows.flushDelay) (g.stepTime time - historyTime)
      refine .inr (.inr ⟨report, toolhead, extras, rfl, ?_⟩)
      dsimp only at hretired ⊢
      rw [hretired]

theorem flush_members (g : StepGenerator α) (time : α) : (g.flush time).1.members =
    match g.refusal? time with
    | some _ => g.refreshWindows.members
    | none => ((g.held time).advanceMembers (g.stepTime time) g.refreshWindows.members []).1 := by
  rw [flush_eq_held]
  cases g.refusal? time with
  | some e => exact held_members g time
  | none =>
    rcases (g.held time).advanceMembers (g.stepTime time) g.refreshWindows.members [] with ⟨members, e | report⟩
    · rfl
    · obtain ⟨toolhead, extras, hretired⟩ := sameBut_finalizeQueues { g.held time with members }
        (g.stepTime time - g.refreshWindows.flushDelay) (g.stepTime time - historyTime)
      dsimp only at hretired ⊢
      rw [hretired]

/-! ## Steppers -/

/-- Advancing steppers changes their trackers only. -/
theorem advanceMembers_map {β : Type} {f : Member α → β}
    (hf : ∀ (m : Member α) tracker, f { m with stepper := { m.stepper with toStepTracker := tracker } } = f m)
    (g : StepGenerator α) (time : α) : ∀ (members : List (Member α)) (report : StepReport α),
      (g.advanceMembers time members report).1.map f = members.map f
  | [], _ => rfl
  | m :: rest, report => by
    rw [advanceMembers]
    dsimp only
    split
    · rw [List.map_cons, List.map_cons, advanceMembers_map hf g time rest report]
    · have hsame : f { m with stepper := (m.stepper.advance (m.stepper.queue.map g.queue) time).1 } = f m := hf m _
      split <;> rename_i s _ hs <;> rw [hs] at hsame <;> dsimp only at hsame
      · rw [List.map_cons, List.map_cons, hsame]
      · rw [List.map_cons, List.map_cons, hsame, advanceMembers_map hf g time rest]

/-- What becomes of a stepper that is advanced on its own. It is passed over if its queue has no motion. -/
def advanceMember (g : StepGenerator α) (time : α) (m : Member α) :
    Member α × Except (StepError α) (Array (Step α)) :=
  if ((m.stepper.queue.map g.queue).map Queue.isEmpty).getD true then (m, .ok #[])
  else
    let (s, answer) := m.stepper.advance (m.stepper.queue.map g.queue) time
    ({ m with stepper := s }, answer)

/-- Steppers are advanced one after the other, and the first failure ends it. -/
theorem advanceMembers_cons (g : StepGenerator α) (time : α) (m : Member α) (rest : List (Member α))
    (report : StepReport α) : g.advanceMembers time (m :: rest) report =
      match g.advanceMember time m with
      | (m', .error e) => (m' :: rest, .error (.step m.stepper.name e))
      | (m', .ok steps) =>
        let (rest', result) := g.advanceMembers time rest
          (if steps.isEmpty then report else report.insert m.stepper.name steps)
        (m' :: rest', result) := by
  rw [advanceMembers, advanceMember]
  by_cases hidle : ((m.stepper.queue.map g.queue).map Queue.isEmpty).getD true = true
  · simp only [hidle, if_true]
    rfl
  · simp only [hidle, Bool.false_eq_true, if_false]
    have hname : (m.stepper.advance (m.stepper.queue.map g.queue) time).1.name = m.stepper.name := rfl
    rcases hs : m.stepper.advance (m.stepper.queue.map g.queue) time with ⟨s, e | steps⟩ <;> rw [hs] at hname
    · rw [← hname]
    · rw [← hname]

/-- Steppers keep their names. -/
theorem registered_flush (g : StepGenerator α) (time : α) : (g.flush time).1.registered = g.registered := by
  have hheld : (g.held time).registered = g.registered :=
    (g.sameBut_held time).registered.trans g.registered_refreshWindows
  have hnames : ((g.held time).advanceMembers (g.stepTime time) g.refreshWindows.members []).1.map
      (·.stepper.name) = g.registered :=
    (advanceMembers_map (fun _ _ => rfl) ..).trans g.registered_refreshWindows
  rcases flush_cases g time with ⟨e, heq⟩ | ⟨e, heq⟩ | ⟨report, toolhead, extras, -, heq⟩ <;> rw [heq]
  · exact hheld
  · exact hnames
  · exact hnames

end PrinterMotion.StepGenerator
