/-
What a flush reports. Each stepper with motion is advanced and answers with its steps. They are taken in under its
name, in the place of what another stepper of that name has left there. So a report tells the steps of all steppers
if their names are different, and otherwise just if those of one name have answered alike.
-/
import PrinterMotion.Proofs.StepGenerator.Losses
import PrinterMotion.Proofs.StepGenerator.Operations
import Mathlib.Data.String.Basic

namespace PrinterMotion

variable {α : Type}

/-! ## Reports -/

namespace StepReport

/-- Steps as they stand in a report, which leaves out steppers without steps. -/
def entry? (steps : Array (Step α)) : Option (Array (Step α)) := if steps.isEmpty then none else some steps

/-- Takes in the steps of a stepper, unless there are none. -/
def put (r : StepReport α) (name : String) (steps : Array (Step α)) : StepReport α :=
  if steps.isEmpty then r else r.insert name steps

/-- Takes in the answers of steppers, one after the other. -/
def collect (r : StepReport α) (answers : List (String × Array (Step α))) : StepReport α :=
  answers.foldl (fun r a => r.put a.1 a.2) r

/-- The steps with which an answer stands under a name. -/
def told? (name : String) (a : String × Array (Step α)) : Option (Array (Step α)) :=
  if a.1 = name then entry? a.2 else none

theorem entry?_eq_some {steps steps' : Array (Step α)} :
    entry? steps = some steps' ↔ steps = steps' ∧ steps'.isEmpty = false := by
  unfold entry?
  split <;> rename_i h
  · simp only [reduceCtorEq, false_iff, not_and]
    rintro rfl
    simp [h]
  · simp only [Option.some.injEq]
    refine ⟨?_, And.left⟩
    rintro rfl
    exact ⟨rfl, by simpa using h⟩

theorem entry?_inj {steps steps' : Array (Step α)} (h : entry? steps = entry? steps') : steps = steps' := by
  unfold entry? at h
  split at h <;> split at h <;> simp_all [Array.isEmpty_iff]

theorem lookup_put (r : StepReport α) (name other : String) (steps : Array (Step α)) :
    (r.put name steps).lookup other = (told? other (name, steps)).or (r.lookup other) := by
  unfold put told? entry?
  by_cases hs : steps.isEmpty = true
  · simp [hs]
  · rw [if_neg hs, lookup_insert]
    by_cases hn : other = name
    · simp [hn, hs]
    · simp [hn, Ne.symm hn]

/-- Under a name stand the steps of the last answer of that name that has any. -/
theorem lookup_collect (name : String) (answers : List (String × Array (Step α))) (r : StepReport α) :
    (r.collect answers).lookup name = (answers.reverse.findSome? (told? name)).or (r.lookup name) := by
  induction answers using List.reverseRecOn with
  | nil => rfl
  | append_singleton answers a ih =>
    have hlast : r.collect (answers ++ [a]) = (r.collect answers).put a.1 a.2 := List.foldl_append
    rw [hlast, lookup_put, ih, List.reverse_append, List.reverse_singleton, List.singleton_append,
      List.findSome?_cons]
    cases told? name (a.1, a.2) <;> rfl

/-- The entries are in the order of their names. -/
def Ordered (r : StepReport α) : Prop := r.Pairwise fun a b => a.1 < b.1

theorem mem_insert {name : String} {steps : Array (Step α)} {e : String × Array (Step α)} {r : StepReport α}
    (h : e ∈ r.insert name steps) : e = (name, steps) ∨ e ∈ r := by
  induction r with
  | nil => exact .inl (List.mem_singleton.1 h)
  | cons first rest ih =>
    obtain ⟨n, old⟩ := first
    rw [insert] at h
    split at h
    · rename_i hn
      rw [hn] at h
      exact (List.mem_cons.1 h).imp_right (List.mem_cons_of_mem _)
    · split at h
      · exact List.mem_cons.1 h
      · rcases List.mem_cons.1 h with rfl | h
        · exact .inr List.mem_cons_self
        · exact (ih h).imp_right (List.mem_cons_of_mem _)

theorem Ordered.insert {r : StepReport α} (h : r.Ordered) (name : String) (steps : Array (Step α)) :
    (r.insert name steps).Ordered := by
  induction r with
  | nil => exact List.pairwise_singleton _ _
  | cons first rest ih =>
    obtain ⟨n, old⟩ := first
    obtain ⟨hfirst, hrest⟩ := List.pairwise_cons.1 h
    rw [StepReport.insert]
    split
    · exact List.pairwise_cons.2 ⟨hfirst, hrest⟩
    · split
      · rename_i hlt
        refine List.pairwise_cons.2 ⟨fun e he => ?_, h⟩
        rcases List.mem_cons.1 he with rfl | he
        · exact hlt
        · exact hlt.trans (hfirst e he)
      · rename_i hne hle
        refine List.pairwise_cons.2 ⟨fun e he => ?_, ih hrest⟩
        rcases mem_insert he with rfl | he
        · exact lt_of_le_of_ne (not_lt.1 hle) hne
        · exact hfirst e he

theorem Ordered.collect {r : StepReport α} (h : r.Ordered) (answers : List (String × Array (Step α))) :
    (r.collect answers).Ordered := by
  induction answers generalizing r with
  | nil => exact h
  | cons a rest ih =>
    have hput : (r.put a.1 a.2).Ordered := by
      unfold put
      split
      · exact h
      · exact h.insert a.1 a.2
    exact ih hput

/-- So each entry is the one that is found under its name. -/
theorem Ordered.lookup_eq_some {r : StepReport α} (h : r.Ordered) {name : String} {steps : Array (Step α)} :
    r.lookup name = some steps ↔ (name, steps) ∈ r := by
  induction r with
  | nil => simp
  | cons first rest ih =>
    obtain ⟨n, old⟩ := first
    obtain ⟨hfirst, hrest⟩ := List.pairwise_cons.1 h
    rw [List.lookup_cons, List.mem_cons, ← ih hrest]
    by_cases hn : name = n
    · subst hn
      have hnot : ¬ rest.lookup name = some steps := fun hmem => (hfirst _ ((ih hrest).1 hmem)).false
      simp [hnot, eq_comm]
    · have hne : (name == n) = false := by simpa using hn
      simp [hne, hn]

end StepReport

namespace StepGenerator

variable [Scalar α]

/-! ## Answers -/

/-- The answer of a stepper that is advanced to a time on the queues of a generator: no steps if there is no motion
in its queue. -/
def answerTo (g : StepGenerator α) (stop : α) (s : Stepper α) : Except (StepError α) (Array (Step α)) :=
  let queue := s.queue.map g.queue
  if (queue.map Queue.isEmpty).getD true then .ok #[] else (s.advance queue stop).2

/-- The answer of a stepper in a flush. -/
def answer (g : StepGenerator α) (time : α) (s : Stepper α) : Except (StepError α) (Array (Step α)) :=
  (g.held time).answerTo (g.stepTime time) s

theorem advanceMember_answer (g : StepGenerator α) (stop : α) (m : Member α) :
    (g.advanceMember stop m).2 = g.answerTo stop m.stepper := by
  unfold advanceMember answerTo
  dsimp only
  split <;> rfl

/-- A report of a flush tells the steps of a stepper: under its name stand exactly those with which it has
answered. -/
def Tells (g : StepGenerator α) (time : α) (report : StepReport α) (s : Stepper α) : Prop :=
  ∃ steps, g.answer time s = .ok steps ∧ report.lookup s.name = StepReport.entry? steps

/-- What a flush that succeeds reports. -/
structure Reported (g : StepGenerator α) (time : α) (report : StepReport α) : Prop where
  /-- No stepper has failed. -/
  answered : ∀ m ∈ g.members, ∃ steps, g.answer time m.stepper = .ok steps
  ordered : report.Ordered
  /-- Under a name stand the steps of the last stepper of that name that has any. -/
  lookup : ∀ name, report.lookup name = g.members.reverse.findSome? fun m =>
    StepReport.told? name (m.stepper.name, (g.answer time m.stepper).toOption.getD #[])

/-- Steppers that are advanced without a failure have all answered, and their answers are collected. -/
theorem advanceMembers_collect (g : StepGenerator α) (stop : α) : ∀ (members : List (Member α))
    (report : StepReport α) {out : StepReport α}, (g.advanceMembers stop members report).2 = .ok out →
      (∀ m ∈ members, ∃ steps, g.answerTo stop m.stepper = .ok steps) ∧
        out = report.collect (members.map fun m => (m.stepper.name, (g.answerTo stop m.stepper).toOption.getD #[]))
  | [], report, out, h => by
    cases h
    exact ⟨(fun _ hm => by cases hm), rfl⟩
  | m :: rest, report, out, h => by
    have hanswer := g.advanceMember_answer stop m
    rw [advanceMembers_cons] at h
    rcases hm : g.advanceMember stop m with ⟨m', e | steps⟩ <;> rw [hm] at h hanswer
    · cases h
    · obtain ⟨hall, hout⟩ := advanceMembers_collect g stop rest (report.put m.stepper.name steps) h
      refine ⟨List.forall_mem_cons.2 ⟨⟨steps, hanswer.symm⟩, hall⟩, ?_⟩
      rw [hout, List.map_cons, ← hanswer]
      rfl

variable {g : StepGenerator α} {time : α} {report : StepReport α}

theorem reported_of_flush (h : (g.flush time).2 = .ok report) : g.Reported time report := by
  have hout : ((g.held time).advanceMembers (g.stepTime time) g.refreshWindows.members []).2 = .ok report := by
    rcases flush_cases g time with ⟨e, heq⟩ | ⟨e, heq⟩ | ⟨report', _, _, hout, heq⟩ <;> rw [heq] at h <;> cases h
    exact hout
  obtain ⟨hall, hreport⟩ := advanceMembers_collect (g.held time) (g.stepTime time) _ [] hout
  rw [refreshWindows_members] at hall hreport
  rw [List.forall_mem_map] at hall
  refine ⟨hall, ?_, fun name => ?_⟩
  · rw [hreport]
    exact StepReport.Ordered.collect List.Pairwise.nil _
  · rw [hreport, StepReport.lookup_collect, List.map_map, ← List.map_reverse, List.findSome?_map, List.lookup_nil,
      Option.or_none]
    rfl

/-- If all that is found is the same, this is found. -/
theorem findSome?_eq_of_forall {β γ : Type} {f : β → Option γ} {l : List β} {found : Option γ}
    (hall : ∀ b ∈ l, f b = none ∨ f b = found) {b : β} (hb : b ∈ l) (hfound : f b = found) :
    l.findSome? f = found := by
  cases hsome : l.findSome? f with
  | none => rw [← hfound, List.findSome?_eq_none_iff.1 hsome b hb]
  | some c =>
    obtain ⟨b', hb', hc⟩ := List.exists_of_findSome?_eq_some hsome
    rcases hall b' hb' with hnone | hsame
    · rw [hc] at hnone
      cases hnone
    · exact hc.symm.trans hsame

/-- The steps of all steppers of a name are told just if these have answered alike. -/
theorem Reported.tells_iff (h : g.Reported time report) (name : String) :
    (∀ m ∈ g.members, m.stepper.name = name → g.Tells time report m.stepper) ↔
      ∀ m ∈ g.members, ∀ m' ∈ g.members, m.stepper.name = name → m'.stepper.name = name →
        g.answer time m.stepper = g.answer time m'.stepper := by
  constructor
  · intro htells m hm m' hm' hname hname'
    obtain ⟨steps, hsteps, hentry⟩ := htells m hm hname
    obtain ⟨steps', hsteps', hentry'⟩ := htells m' hm' hname'
    rw [hname] at hentry
    rw [hname'] at hentry'
    rw [hsteps, hsteps', StepReport.entry?_inj (hentry.symm.trans hentry')]
  · intro halike m hm hname
    obtain ⟨steps, hsteps⟩ := h.answered m hm
    refine ⟨steps, hsteps, ?_⟩
    rw [h.lookup]
    -- Whoever is found under the name has answered as `m` has.
    refine findSome?_eq_of_forall (fun m' hm' => ?_) (List.mem_reverse.2 hm) ?_
    · unfold StepReport.told?
      split
      · rename_i hname'
        rw [← halike m hm m' (List.mem_reverse.1 hm') hname (hname'.trans hname), hsteps]
        exact .inr rfl
      · exact .inl rfl
    · rw [hsteps]
      exact if_pos rfl

/-- So the steps of a stepper are told if no other one has its name. -/
theorem Reported.tells_of_unique (h : g.Reported time report) {m : Member α} (hm : m ∈ g.members)
    (hunique : ∀ m' ∈ g.members, m'.stepper.name = m.stepper.name → m' = m) : g.Tells time report m.stepper :=
  (h.tells_iff m.stepper.name).2 (fun m₁ hm₁ m₂ hm₂ h₁ h₂ => by rw [hunique m₁ hm₁ h₁, hunique m₂ hm₂ h₂]) m hm rfl

/-- Each entry is told of a stepper. -/
theorem Reported.entry (h : g.Reported time report) {e : String × Array (Step α)} (he : e ∈ report) :
    ∃ m ∈ g.members, m.stepper.name = e.1 ∧ g.answer time m.stepper = .ok e.2 ∧ e.2 ≠ #[] := by
  have hfound := h.ordered.lookup_eq_some.2 he
  rw [h.lookup] at hfound
  obtain ⟨m, hm, htold⟩ := List.exists_of_findSome?_eq_some hfound
  have hm := List.mem_reverse.1 hm
  obtain ⟨steps, hsteps⟩ := h.answered m hm
  unfold StepReport.told? at htold
  split at htold
  · rename_i hname
    obtain ⟨heq, hne⟩ := StepReport.entry?_eq_some.1 htold
    rw [hsteps] at heq
    refine ⟨m, hm, hname, hsteps.trans (congrArg _ heq), fun hempty => ?_⟩
    rw [hempty] at hne
    cases hne
  · cases htold

/-! ## Names -/

omit [Scalar α] in
theorem names_of_refitted {l l' : List (Member α)} (h : List.Forall₂ Refitted l l') :
    l'.map (·.stepper.name) = l.map (·.stepper.name) := by
  induction h with
  | nil => rfl
  | cons hm _ ih =>
    obtain ⟨model, rfl⟩ := hm
    rw [List.map_cons, List.map_cons, ih]

theorem Fitted.registered {g g' : StepGenerator α} (h : Fitted g g') : g'.registered = g.registered := by
  cases h with
  | same => rfl
  | refreshed models => exact (registered_refreshWindows _).trans (names_of_refitted models)

/-- Names come in with the steppers that are added, and stay. -/
theorem registered_operate (g : StepGenerator α) (op : Operation α) :
    (g.operate op).registered = g.registered ++ (op.added?.map (·.name)).toList := by
  generalize hg : g.operate op = g'
  cases hg ▸ g.operated_operate op with
  | added s =>
    rw [registered, addStepper_members, List.map_append]
    rfl
  | fitted hadded hfitted =>
    rw [hfitted.registered, Operation.added?, hadded]
    exact (List.append_nil _).symm
  | @queued c => exact (g.sameBut_replay c).registered.trans (List.append_nil _).symm
  | flushed time => exact (g.registered_flush time).trans (List.append_nil _).symm
  | remodelled models => exact (names_of_refitted models).trans (List.append_nil _).symm
  | noted => exact (List.append_nil _).symm

theorem registered_operated (toolhead : Queue α) (extras : List (String × Queue α)) (ops : List (Operation α)) :
    ((attached toolhead extras).operated ops).registered = (ops.filterMap Operation.added?).map (·.name) := by
  have hrun : ∀ (ops : List (Operation α)) (g : StepGenerator α),
      (g.operated ops).registered = g.registered ++ (ops.filterMap Operation.added?).map (·.name) := by
    intro ops
    induction ops with
    | nil => exact fun g => (List.append_nil _).symm
    | cons op rest ih =>
      intro g
      change ((g.operate op).operated rest).registered = _
      rw [ih, registered_operate, List.append_assoc, List.filterMap_cons]
      cases op.added? <;> rfl
  exact hrun ops (attached toolhead extras)

end StepGenerator

end PrinterMotion
