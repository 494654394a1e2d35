/-
What failing flushes lose. A flush advances the steppers one after the other, and each of them segment by
segment. When a search fails or a model has no position, the commanded positions have taken in the steps that
were finished by then, but the flush does not return them. So over a run of calls each commanded position moves
by the net of the steps that flushes returned and of those that failing flushes lost.
-/
import PrinterMotion.Proofs.Stepper.Account
import PrinterMotion.Proofs.StepGenerator.Calls

namespace PrinterMotion

/-! ## Reports -/

namespace StepReport

variable {α : Type}

theorem lookup_insert (name other : String) (steps : Array (Step α)) (r : StepReport α) :
    (insert name steps r).lookup other = if other = name then some steps else r.lookup other := by
  induction r with
  | nil =>
    by_cases h : other = name <;> simp [insert, h]
  | cons e rest ih =>
    obtain ⟨n, old⟩ := e
    rw [insert]
    by_cases hn : n = name
    · -- The steps take the place of the first entry.
      rw [if_pos hn, List.lookup_cons, List.lookup_cons, ← hn]
      by_cases h : other = n
      · simp [h]
      · have hne : (other == n) = false := by simpa using h
        simp [h, hne]
    · -- They are put in front of it, or further back.
      rw [if_neg hn]
      by_cases h : other = name
      · subst h
        have hne : (other == n) = false := by simpa using Ne.symm hn
        split
        · simp
        · rw [List.lookup_cons, hne, if_pos rfl]
          simpa using ih
      · have hne : (other == name) = false := by simpa using h
        rw [if_neg h] at ih ⊢
        split
        · rw [List.lookup_cons, hne]
        · rw [List.lookup_cons, List.lookup_cons, ih]

variable {name other : String} {r : StepReport α}

/-- Steps are found under their name, also when there are none and they are left out. -/
theorem get_put_self (h : r.get name = #[]) (steps : Array (Step α)) :
    (if steps.isEmpty then r else r.insert name steps).get name = steps := by
  split
  · rename_i hs
    rw [h, Array.isEmpty_iff.1 hs]
  · rw [get, lookup_insert, if_pos rfl, Option.getD_some]

theorem get_put_ne (h : other ≠ name) (steps : Array (Step α)) :
    (if steps.isEmpty then r else r.insert name steps).get other = r.get other := by
  split
  · rfl
  · rw [get, get, lookup_insert, if_neg h]

end StepReport

namespace StepGenerator

variable {α : Type} [Scalar α]

/-! ## One flush -/

/-- The steps that a stepper finishes when it is advanced, also when it fails behind them. -/
def finishedSteps (g : StepGenerator α) (time : α) (m : Member α) : List (Step α) :=
  (m.stepper.finishedTo m.stepper.model.kinematics (m.stepper.queue.map g.queue) time).toList

/-- The steps that the stepper of an index finishes when steppers are advanced one after the other: none
behind a stepper that fails. -/
def finishedAt (g : StepGenerator α) (time : α) : List (Member α) → Nat → List (Step α)
  | [], _ => []
  | m :: _, 0 => g.finishedSteps time m
  | m :: rest, j + 1 =>
    match (g.advanceMember time m).2 with
    | .error _ => []
    | .ok _ => g.finishedAt time rest j

/-- The steps that the stepper of an index finishes in a flush. If a queue refuses to be held, none is advanced. -/
def finishedIn (g : StepGenerator α) (time : α) (j : Nat) : List (Step α) :=
  match g.refusal? time with
  | some _ => []
  | none => (g.held time).finishedAt (g.stepTime time) g.refreshWindows.members j

/-- There is nothing to search on a queue without motion. -/
theorem finishedSteps_idle {g : StepGenerator α} {m : Member α} (time : α)
    (hidle : ((m.stepper.queue.map g.queue).map Queue.isEmpty).getD true = true) : g.finishedSteps time m = [] := by
  unfold finishedSteps StepTracker.finishedTo
  cases hq : m.stepper.searched? (m.stepper.queue.map g.queue) time with
  | none => rfl
  | some q =>
    obtain ⟨hqueue, -, finish, hfinish, -⟩ := StepTracker.searched?_eq_some.1 hq
    rw [hqueue] at hidle
    have hempty : q.active = #[] := by simpa [Queue.isEmpty] using hidle
    simp [Queue.finish?, hempty] at hfinish

/-- A stepper that does not fail returns the steps it finishes. -/
theorem advanceMember_finished {g : StepGenerator α} {time : α} {m : Member α} {steps : Array (Step α)}
    (h : (g.advanceMember time m).2 = .ok steps) : steps.toList = g.finishedSteps time m := by
  unfold advanceMember at h
  by_cases hidle : ((m.stepper.queue.map g.queue).map Queue.isEmpty).getD true = true
  · rw [if_pos hidle] at h
    cases h
    exact (finishedSteps_idle time hidle).symm
  · rw [if_neg hidle] at h
    exact congrArg Array.toList (StepTracker.advance_finished h)

/-- Steppers with different names do not get into each other's place in the report. -/
theorem advanceMembers_report (g : StepGenerator α) (time : α) : ∀ (members : List (Member α))
    (report : StepReport α) {out : StepReport α}, (members.map (·.stepper.name)).Nodup →
      (∀ m ∈ members, report.get m.stepper.name = #[]) → (g.advanceMembers time members report).2 = .ok out →
      (∀ {j : Nat} {m : Member α}, members[j]? = some m →
        (out.get m.stepper.name).toList = g.finishedAt time members j) ∧
      ∀ name ∉ members.map (·.stepper.name), out.get name = report.get name
  | [], _, _, _, _, hout => by
    cases hout
    exact ⟨fun hm => (by cases hm), fun _ _ => rfl⟩
  | first :: rest, report, out, hnames, hempty, hout => by
    rw [List.map_cons, List.nodup_cons] at hnames
    rw [advanceMembers_cons] at hout
    rcases hfirst : g.advanceMember time first with ⟨first', e | steps⟩ <;> rw [hfirst] at hout
    · cases hout
    have hsteps := advanceMember_finished (congrArg Prod.snd hfirst)
    have hself := StepReport.get_put_self (hempty first List.mem_cons_self) steps
    have hother : ∀ name, name ≠ first.stepper.name →
        (if steps.isEmpty then report else report.insert first.stepper.name steps).get name = report.get name :=
      fun _ hne => StepReport.get_put_ne hne steps
    have hrest : ∀ m ∈ rest, m.stepper.name ≠ first.stepper.name := fun m hm heq =>
      hnames.1 (heq ▸ List.mem_map_of_mem hm)
    obtain ⟨hat, helse⟩ := advanceMembers_report g time rest _ hnames.2
      (fun m hm => (hother _ (hrest m hm)).trans (hempty m (List.mem_cons_of_mem _ hm))) hout
    refine ⟨fun {j m} hm => ?_, fun name hname => ?_⟩
    · cases j with
      | zero =>
        cases hm
        rw [helse _ hnames.1, hself, hsteps]
        rfl
      | succ j =>
        rw [hat hm]
        simp only [finishedAt, hfirst]
    · rw [List.map_cons, List.mem_cons, not_or] at hname
      rw [helse name hname.2, hother name hname.1]

/-! ## Calls -/

/-- The steps of a name that a call returns. -/
def returned (g : StepGenerator α) (name : String) : Call α → List (Step α)
  | .flush time =>
    match (g.flush time).2 with
    | .ok report => (report.get name).toList
    | .error _ => []
  | _ => []

/-- The steps of the stepper of an index that a call loses: those it finishes in a flush that fails. -/
def lost (g : StepGenerator α) (j : Nat) : Call α → List (Step α)
  | .flush time =>
    match (g.flush time).2 with
    | .ok _ => []
    | .error _ => g.finishedIn time j
  | _ => []

/-- The steps that are finished in a flush are either returned or lost. -/
theorem returned_append_lost (g : StepGenerator α) (hnames : g.registered.Nodup) (time : α) {j : Nat}
    {m : Member α} (hm : g.refreshWindows.members[j]? = some m) :
    g.returned m.stepper.name (.flush time) ++ g.lost j (.flush time) = g.finishedIn time j := by
  rw [← registered_refreshWindows] at hnames
  simp only [returned, lost, finishedIn, flush_eq_held]
  cases g.refusal? time with
  | some e => rfl
  | none =>
    rcases hadv : (g.held time).advanceMembers (g.stepTime time) g.refreshWindows.members [] with ⟨members, e | report⟩
    · rfl
    · simp only [List.append_nil]
      exact (advanceMembers_report _ _ _ [] hnames (fun _ _ => rfl) (by rw [hadv])).1 hm

/-! ## Positions -/

/-- A stepper that has taken steps, in a later state. -/
structure Moved (m : Member α) (steps : List (Step α)) (m' : Member α) : Prop where
  name : m'.stepper.name = m.stepper.name
  stepDistance : m'.stepper.stepDistance = m.stepper.stepDistance
  walk : Walk m.stepper.stepDistance m.stepper.commanded steps m'.stepper.commanded

theorem Moved.refl (m : Member α) : Moved m [] m := ⟨rfl, rfl, .nil _⟩

variable [Scalar.Stepwise α]

/-- A stepper is moved by the steps it finishes, whether or not it fails. -/
theorem advanceMember_moved (g : StepGenerator α) (time : α) {m : Member α}
    (hfinite : Scalar.isFinite m.stepper.stepDistance = true) :
    Moved m (g.finishedSteps time m) (g.advanceMember time m).1 := by
  unfold advanceMember
  by_cases hidle : ((m.stepper.queue.map g.queue).map Queue.isEmpty).getD true = true
  · rw [if_pos hidle, finishedSteps_idle time hidle]
    exact .refl m
  · rw [if_neg hidle]
    obtain ⟨hd, hwalk⟩ := StepTracker.advance_walk hfinite m.stepper.model.kinematics
      (m.stepper.queue.map g.queue) time
    exact ⟨rfl, hd, hwalk⟩

theorem advanceMembers_moved (g : StepGenerator α) (time : α) : ∀ (members : List (Member α))
    (report : StepReport α) {j : Nat} {m : Member α}, members[j]? = some m →
      Scalar.isFinite m.stepper.stepDistance = true →
      ∃ m', (g.advanceMembers time members report).1[j]? = some m' ∧ Moved m (g.finishedAt time members j) m'
  | first :: rest, report, j, m, hm, hfinite => by
    rw [advanceMembers_cons]
    rcases hfirst : g.advanceMember time first with ⟨first', e | steps⟩
    · cases j with
      | zero =>
        cases hm
        have hmoved := g.advanceMember_moved time hfinite
        rw [hfirst] at hmoved
        exact ⟨first', rfl, hmoved⟩
      | succ j =>
        -- Behind a stepper that fails none is advanced.
        refine ⟨m, hm, ?_⟩
        simp only [finishedAt, hfirst]
        exact .refl m
    · cases j with
      | zero =>
        cases hm
        have hmoved := g.advanceMember_moved time hfinite
        rw [hfirst] at hmoved
        exact ⟨first', rfl, hmoved⟩
      | succ j =>
        obtain ⟨m', hm', hmoved⟩ := advanceMembers_moved g time rest
          (if steps.isEmpty then report else report.insert first.stepper.name steps) hm hfinite
        refine ⟨m', hm', ?_⟩
        simp only [finishedAt, hfirst]
        exact hmoved

/-- A flush moves each stepper by the steps that it finishes, whether or not the flush fails. -/
theorem flush_moved (g : StepGenerator α) (time : α) {j : Nat} {m : Member α}
    (hm : g.refreshWindows.members[j]? = some m) (hfinite : Scalar.isFinite m.stepper.stepDistance = true) :
    ∃ m', (g.flush time).1.members[j]? = some m' ∧ Moved m (g.finishedIn time j) m' := by
  rw [flush_members, finishedIn]
  cases g.refusal? time with
  | some e => exact ⟨m, hm, .refl m⟩
  | none => exact (g.held time).advanceMembers_moved (g.stepTime time) g.refreshWindows.members [] hm hfinite

/-- A call moves each stepper by the steps that it returns or loses of it. -/
theorem run_moved (g : StepGenerator α) (hnames : g.registered.Nodup) (c : Call α) {j : Nat} {m : Member α}
    (hm : g.members[j]? = some m) (hfinite : Scalar.isFinite m.stepper.stepDistance = true) :
    ∃ m', (g.run c).members[j]? = some m' ∧ Moved m (g.returned m.stepper.name c ++ g.lost j c) m' := by
  have hsame : ∀ c, (g.replay c).members[j]? = some m := by
    intro c
    obtain ⟨toolhead, extras, heq⟩ := g.sameBut_replay c
    rw [heq]
    exact hm
  cases c with
  | flush time =>
    have hfresh : g.refreshWindows.members[j]? = some { m with window := m.stepper.model.scanWindow } := by
      rw [refreshWindows_members, List.getElem?_map, hm]
      rfl
    have hsteps := g.returned_append_lost hnames time hfresh
    obtain ⟨m', hm', hmoved⟩ := g.flush_moved time hfresh hfinite
    rw [← hsteps] at hmoved
    exact ⟨m', hm', hmoved.name, hmoved.stepDistance, hmoved.walk⟩
  | move time start finish maxVelocity accel =>
    exact ⟨m, hsame (.move time start finish maxVelocity accel), .refl m⟩
  | extrude ref time timing start distance =>
    exact ⟨m, hsame (.extrude ref time timing start distance), .refl m⟩

omit [Scalar.Stepwise α] in
theorem registered_run (g : StepGenerator α) (c : Call α) : (g.run c).registered = g.registered := by
  rcases g.run_cases c with ⟨time, rfl⟩ | ⟨-, heq⟩
  · exact g.registered_flush time
  · rw [heq]
    exact (g.sameBut_replay c).registered

/-! ## Runs -/

/-- The steps of a name that calls return, one after the other. -/
def returnedBy (g : StepGenerator α) (name : String) : List (Call α) → List (Step α)
  | [] => []
  | c :: rest => g.returned name c ++ (g.run c).returnedBy name rest

/-- The steps of the stepper of an index that calls lose. -/
def lostBy (g : StepGenerator α) (j : Nat) : List (Call α) → List (Step α)
  | [] => []
  | c :: rest => g.lost j c ++ (g.run c).lostBy j rest

/-- No flush fails among calls. -/
def Succeeds (g : StepGenerator α) (calls : List (Call α)) : Prop :=
  ∀ done time rest, calls = done ++ .flush time :: rest → ((g.after done).flush time).2.isOk

omit [Scalar.Stepwise α] in
theorem Succeeds.lostBy_eq {j : Nat} : ∀ {calls : List (Call α)} {g : StepGenerator α}, g.Succeeds calls →
    g.lostBy j calls = []
  | [], _, _ => rfl
  | c :: rest, g, h => by
    have hrest : (g.run c).Succeeds rest := fun done time later heq => h (c :: done) time later (by rw [heq]; rfl)
    have hfirst : g.lost j c = [] := by
      cases c with
      | flush time =>
        have hok : (g.flush time).2.isOk = true := h [] time rest rfl
        rw [lost]
        rcases hanswer : (g.flush time).2 with e | report
        · rw [hanswer] at hok
          cases hok
        · rfl
      | move => rfl
      | extrude => rfl
    rw [lostBy, hfirst, hrest.lostBy_eq, List.nil_append]

theorem after_accounted : ∀ (calls : List (Call α)) {g : StepGenerator α}, g.registered.Nodup →
    ∀ {j : Nat} {m : Member α}, g.members[j]? = some m → Scalar.isFinite m.stepper.stepDistance = true →
      ∃ m', (g.after calls).members[j]? = some m' ∧ m'.stepper.name = m.stepper.name ∧
        m'.stepper.commanded = m.stepper.commanded + m.stepper.stepDistance *
          Scalar.ofInt (netDirection (g.returnedBy m.stepper.name calls) + netDirection (g.lostBy j calls))
  | [], g, _, j, m, hm, hfinite => ⟨m, hm, rfl, (Scalar.Stepwise.add_zero _ hfinite).symm⟩
  | c :: rest, g, hnames, j, m, hm, hfinite => by
    obtain ⟨m₁, hm₁, hmoved⟩ := g.run_moved hnames c hm hfinite
    rw [← hmoved.stepDistance] at hfinite
    obtain ⟨m₂, hm₂, hname, hcommanded⟩ := after_accounted rest (by rwa [registered_run]) hm₁ hfinite
    refine ⟨m₂, hm₂, hname.trans hmoved.name, ?_⟩
    rw [hmoved.stepDistance] at hfinite hcommanded
    rw [hcommanded, hmoved.walk.end_eq_net hfinite, hmoved.name, Scalar.Stepwise.add_add _ _ _ hfinite]
    simp only [returnedBy, lostBy, netDirection_append]
    rw [add_add_add_comm]

/-- After any calls the commanded position of a stepper is moved by its step distance times the net of the steps
that flushes have returned of it and of those that failing flushes have lost, whether a search fails, a model is out
of its reach or a queue refuses to be held. None are lost as long as no flush fails. -/
theorem commanded_accounted {g : StepGenerator α} (hnames : g.registered.Nodup) (calls : List (Call α)) {j : Nat}
    {m : Member α} (hm : g.members[j]? = some m) (hfinite : Scalar.isFinite m.stepper.stepDistance = true) :
    (∃ m', (g.after calls).members[j]? = some m' ∧ m'.stepper.name = m.stepper.name ∧
      m'.stepper.commanded = m.stepper.commanded + m.stepper.stepDistance *
        Scalar.ofInt (netDirection (g.returnedBy m.stepper.name calls) + netDirection (g.lostBy j calls))) ∧
    (g.Succeeds calls → g.lostBy j calls = []) :=
  ⟨after_accounted calls hnames hm hfinite, Succeeds.lostBy_eq⟩

/-- The stepper whose model has no position, if that is how a flush fails. -/
def unreached? : Except (GeneratorError α) (StepReport α) → Option String
  | .error (.step name (.notFinite ..)) => some name
  | _ => none

/-- Filament for an extruder, and a second later motion for a tower that is too far away for its arm. -/
def farTower : StepGenerator (Partial ℚ) :=
  ((empty.addStepper { Stepper.new "a" 1.0 (.extruder .off) with queue := some (.extra "a") }).addStepper
    { Stepper.new "b" 1.0 (.tower ⟨1.0, 4.0, 0.0⟩) with queue := some (.extra "b") }).after [
      .extrude (.extra "a") 1.0 ⟨1.0, 0.0, 1.0, 0.0, 1.0, 0.0⟩ 0.0 4.5,
      .extrude (.extra "b") 2.0 ⟨1.0, 0.0, 1.0, 0.0, 1.0, 0.0⟩ 0.0 1.0]

/-- A flush before the motion of the tower returns the steps of the extruder so far. A later one, in which the model
of the tower fails, loses the others. -/
theorem commanded_accounted_farTower :
    (∃ m ∈ farTower.members[0]?, ∃ m' ∈ (farTower.after [.flush 1.5, .flush 2.5]).members[0]?,
      m'.stepper.commanded = m.stepper.commanded + m.stepper.stepDistance *
        Scalar.ofInt (netDirection (farTower.returnedBy m.stepper.name [.flush 1.5, .flush 2.5]) +
          netDirection (farTower.lostBy 0 [.flush 1.5, .flush 2.5]))) ∧
    unreached? ((farTower.after [.flush 1.5]).flush 2.5).2 = some "b" ∧
    (farTower.lostBy 0 [.flush 1.5, .flush 2.5]).length = 2 ∧ farTower.lostBy 0 [.flush 1.5] = [] := by
  have hnames : farTower.registered.Nodup := by decide +kernel
  obtain ⟨m, hm, hfinite⟩ : ∃ m ∈ farTower.members[0]?, Scalar.isFinite m.stepper.stepDistance = true := by
    decide +kernel
  obtain ⟨⟨m', hm', -, hcommanded⟩, -⟩ := commanded_accounted hnames [.flush 1.5, .flush 2.5] hm hfinite
  refine ⟨⟨m, hm, m', hm', hcommanded⟩, by decide +kernel, by decide +kernel,
    (commanded_accounted hnames [.flush 1.5] hm hfinite).2 ?_⟩
  rintro (_ | ⟨c, done⟩) time rest heq
  · cases heq
    decide +kernel
  · simp at heq

/-- So the steps that flushes return do not account for the commanded position if a model fails in one of them. -/
theorem not_accounted_by_returned : ¬ ∀ (g : StepGenerator (Partial ℚ)) (times : List (Partial ℚ)) (j : Nat)
    (m m' : Member (Partial ℚ)), g.registered.Nodup → g.members[j]? = some m →
    Scalar.isFinite m.stepper.stepDistance = true → (g.after (times.map .flush)).members[j]? = some m' →
    m'.stepper.commanded = m.stepper.commanded + m.stepper.stepDistance *
      Scalar.ofInt (netDirection (g.returnedBy m.stepper.name (times.map .flush))) := by
  intro h
  obtain ⟨m, hm, hfinite, m', hm', hne⟩ : ∃ m ∈ farTower.members[0]?,
      Scalar.isFinite m.stepper.stepDistance = true ∧ ∃ m' ∈ (farTower.after [.flush 2.5]).members[0]?,
        m'.stepper.commanded ≠ m.stepper.commanded + m.stepper.stepDistance *
          Scalar.ofInt (netDirection (farTower.returnedBy m.stepper.name [.flush 2.5])) := by
    decide +kernel
  exact hne (h farTower [2.5] 0 m m' (by decide +kernel) hm hfinite hm')

end StepGenerator

end PrinterMotion
