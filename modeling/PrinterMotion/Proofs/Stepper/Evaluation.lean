/-
Which positions a flush asks for. The searches of a flush take positions inside segments of the queue, at
print times behind the last flush and not behind the new one. So two position functions that agree there
give the same steps and leave the stepper in the same state.
-/
import PrinterMotion.Proofs.Stepper.Order

namespace PrinterMotion

variable {F : Type} [Exact F]

/-- The searches of a plan lie between the last flush and the new one. -/
theorem Visit.plan_range (scope : Visit.Scope F) (segments : Array (Segment F)) :
    ∀ (rest : List (Segment F)) (i : Nat) (forced : F) (skipped : Nat),
      ∀ v ∈ Visit.plan scope segments rest i forced skipped, scope.flushed ≤ v.start ∧ v.stop ≤ scope.time
  | [], _, _, _, v, hv => by cases hv
  | m :: rest, i, forced, skipped, v, hv => by
    unfold Visit.plan at hv
    simp only [Scalar.max_eq, Scalar.min_eq] at hv
    split at hv
    · -- A segment that moves the stepper, with the lead-in to it.
      have hlead : ∀ (p : Prop) [Decidable p] (first : Nat) (start : F), scope.flushed ≤ start →
          v ∈ (if p then (List.range' first (i - first)).map fun back => ⟨back, start, scope.time, none⟩
            else ([] : List (Visit F))) → scope.flushed ≤ v.start ∧ v.stop ≤ scope.time := by
        intro p _ first start hstart hmem
        split at hmem
        · obtain ⟨back, -, rfl⟩ := List.mem_map.1 hmem
          exact ⟨hstart, le_refl _⟩
        · cases hmem
      have hstart : scope.flushed ≤ max (max (m.start - scope.before) scope.flushed) forced :=
        le_max_of_le_left (le_max_right _ _)
      split at hv
      · rcases List.mem_append.1 hv with hv | hv
        · exact hlead _ _ _ hstart hv
        · rw [List.mem_singleton.1 hv]
          exact ⟨le_refl _, le_refl _⟩
      · rcases List.mem_append.1 hv with hv | hv
        · exact hlead _ _ _ hstart hv
        · rcases List.mem_cons.1 hv with rfl | hv
          · exact ⟨le_refl _, le_refl _⟩
          · exact plan_range scope segments rest _ _ _ v hv
    · have htrail : v ∈ (if m.start < forced then [⟨i, scope.flushed, min forced scope.time, none⟩]
          else ([] : List (Visit F))) → scope.flushed ≤ v.start ∧ v.stop ≤ scope.time := by
        intro hmem
        split at hmem
        · rw [List.mem_singleton.1 hmem]
          exact ⟨le_refl _, min_le_right _ _⟩
        · cases hmem
      split at hv
      · exact htrail hv
      · rcases List.mem_append.1 hv with hv | hv
        · exact htrail hv
        · exact plan_range scope segments rest _ _ _ v hv

namespace Kinematics

/-- The model with another position function. -/
def withPosition (k : Kinematics F) (p : Cursor F → F → F) : Kinematics F := { k with position := p }

theorem evaluate_withPosition {k : Kinematics F} {p : Cursor F → F → F} {c : Cursor F} {time : F}
    (h : k.position c time = p c time) (base : F) :
    k.evaluate c base time = (k.withPosition p).evaluate c base time := by
  unfold evaluate
  rw [h]
  rfl

end Kinematics

namespace StepTracker

variable {s : StepTracker F} {k : Kinematics F} {p : Cursor F → F → F} {q : Queue F} {flushed time : F}

/-- Two position functions agree wherever a flush from `flushed` to `time` can ask for a position. -/
def AgreeOn (q : Queue F) (flushed time : F) (p p' : Cursor F → F → F) : Prop :=
  ∀ (i : Nat) (c : Cursor F) (t : F), q.cursor? i = some c → 0 < t → t ≤ c.current.duration →
    flushed < c.current.start + t → c.current.start + t ≤ time → p c t = p' c t

theorem visits_range (s : StepTracker F) (k : Kinematics F) (q : Queue F) (time : F) :
    ∀ v ∈ s.visits k q time, s.flushed ≤ v.start ∧ v.stop ≤ time := by
  unfold visits
  split
  · exact fun v hv => by cases hv
  · exact Visit.plan_range ⟨k.axes, k.before, k.after, s.flushed, time⟩ _ _ _ _ _

theorem search?_congr (h : AgreeOn q flushed time k.position p) {v : Visit F}
    (hv : ∀ m, q.active[v.segment]? = some m → v.lower m < v.upper m → flushed ≤ v.lower m ∧ v.upper m ≤ time)
    (steps : Array (Step F)) : s.search? k q v steps = s.search? (k.withPosition p) q v steps := by
  cases hc : q.cursor? v.segment with
  | none => simp only [search?, hc, Option.bind_none]
  | some c =>
    obtain ⟨m, hm, hcur⟩ := Queue.cursor?_eq_some hc
    rw [search?_eq hc hcur, search?_eq hc hcur]
    by_cases hrange : v.upper m ≤ v.lower m
    · rw [if_pos hrange, if_pos hrange]
    rw [if_neg hrange, if_neg hrange]
    rw [not_le] at hrange
    obtain ⟨hlow, hupp⟩ := hv m hm hrange
    refine congrArg some (Search.run_congr (fun t ht ht' => ?_) m.start stepLimit _ steps s.lastStep
      (Search.begin_ready s.commanded s.stepDistance s.forward (sub_lt_sub_right hrange m.start)))
    have hstart : m.start ≤ v.lower m := le_max_right _ _
    have hfinish : v.upper m ≤ m.start + m.duration := v.upper_le_finish m
    subst hcur
    refine Kinematics.evaluate_withPosition (h v.segment c t hc ?_ ?_ ?_ ?_) _ <;> linarith

theorem runVisits_congr (h : AgreeOn q flushed time k.position p) : ∀ (vs : List (Visit F)) (s : StepTracker F)
    (steps : Array (Step F)), (∀ v ∈ vs, flushed ≤ v.start ∧ v.stop ≤ time) →
      runVisits k q vs s steps = runVisits (k.withPosition p) q vs s steps
  | [], _, _, _ => rfl
  | v :: rest, s, steps, hvs => by
    obtain ⟨hstart, hstop⟩ := hvs v List.mem_cons_self
    have hseg : s.searchSegment k q v steps = s.searchSegment (k.withPosition p) q v steps := by
      rw [searchSegment_eq, searchSegment_eq, search?_congr h fun m _ _ =>
        ⟨hstart.trans (le_max_left _ _), (min_le_left _ _).trans hstop⟩]
    rw [runVisits_cons, runVisits_cons, ← hseg]
    rcases s.searchSegment k q v steps with ⟨s', _ | steps'⟩
    · rfl
    · exact runVisits_congr h rest _ _ fun v hv => hvs v (List.mem_cons_of_mem _ hv)

/-- A flush does not see where else two position functions differ. -/
theorem advance_congr (h : AgreeOn q s.flushed time k.position p) :
    s.advance k (some q) time = s.advance (k.withPosition p) (some q) time := by
  rw [advance_eq, advance_eq]
  cases hq : s.searched? (some q) time with
  | none => rfl
  | some q' =>
    obtain ⟨hsame, -, -⟩ := searched?_eq_some.1 hq
    cases hsame
    exact runVisits_congr h _ _ _ (visits_range s k q time)

/-- A flush asks for the position at a print time: with another position then, and then alone, it would end
in another way. -/
def Consults (s : StepTracker F) (k : Kinematics F) (q : Queue F) (time t : F) : Prop :=
  ∃ x, s.advance (k.withPosition fun c u => if c.current.start + u = t then x else k.position c u) (some q) time ≠
    s.advance k (some q) time

/-- A call of `advance` never takes the last flush back, and when it succeeds the flush is at its time or
was beyond it before. -/
theorem advance_flushed (s : StepTracker F) (k : Kinematics F) (queue : Option (Queue F)) (time : F) :
    s.flushed ≤ (s.advance k queue time).1.flushed ∧
      ∀ out, (s.advance k queue time).2 = .ok out → time ≤ (s.advance k queue time).1.flushed := by
  rcases advance_cases s k queue time with ⟨⟨answer, hs, hcase⟩, -⟩ | ⟨q, finish, rfl, -, hlt, -, hs, -⟩
  · rw [hs]
    refine ⟨le_refl _, fun out hout => ?_⟩
    rcases hcase with ⟨-, hle⟩ | ⟨finish, herr⟩
    · exact hle
    · rw [herr] at hout
      cases hout
  · rw [hs, runVisits_flushed]
    exact ⟨hlt.le, fun _ _ => le_refl _⟩

end StepTracker

end PrinterMotion
