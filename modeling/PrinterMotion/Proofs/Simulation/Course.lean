/-
What the dispatch hears in the course of a simulation. The reports of a controller reach it in the order in
which they were sent; as long as the controller runs they tell of its clock as it goes on, and once its
endstop has closed, of the clock at which it did. The report of that ends the generation when it reaches
the dispatch, unless that has ended before.
-/
import PrinterMotion.Proofs.Simulation.Events

namespace PrinterMotion

namespace HomingSimulation

variable {α : Type} [Scalar α]

/-! ## The end of a generation -/

/-- The generation has ended by a trigger or by a passed expire clock. -/
structure Ended (s : HomingSimulation α) : Prop where
  idle : s.dispatch.active = false
  broken : s.dispatch.broken = false
  noticed : s.dispatch.trigger.isSome = true ∨ s.lapse.isSome = true

/-- The dispatch is active, and the endpoint at a place is to hear of the clocks and then of a trigger. -/
structure Awaits (s : HomingSimulation α) (place : Nat) (clocks : List UInt64) (last : UInt64) : Prop where
  active : s.dispatch.active = true
  canTrigger : s.dispatch.canTrigger = s.dispatch.active
  broken : s.dispatch.broken = false
  expects : s.dispatch.Expects place (UInt32.ofNat place) clocks last

theorem Handles.unbroken {s s' : HomingSimulation α} {us : List StatusUpdate} (h : s.Handles us s')
    (hb : s.dispatch.broken = false) : s'.dispatch.broken = false := by
  rw [h.dispatch]
  refine Dispatch.batch_unbroken hb fun he => ?_
  rcases h.answer with ⟨⟨outcomes, ho⟩, -⟩ | ⟨⟨oid, clock, expire, ho⟩, -⟩
  · rw [ho] at he
    cases he
  · rw [ho] at he
    cases he

theorem Handles.ended {s s' : HomingSimulation α} {us : List StatusUpdate} (h : s.Handles us s')
    (he : s.Ended) : s'.Ended := by
  have hidle := Dispatch.batch_idle he.broken (by rw [he.idle]; rfl) us
  have hsame : s'.dispatch = s.dispatch := by rw [h.dispatch, hidle]
  refine ⟨hsame ▸ he.idle, hsame ▸ he.broken, ?_⟩
  rcases h.answer with ⟨-, hlapse⟩ | ⟨⟨oid, clock, expire, ho⟩, -⟩
  · rw [hsame, hlapse]
    exact he.noticed
  · rw [hidle] at ho
    cases ho

/-- Reports leave the dispatch active, or the generation has ended. -/
theorem Handles.active_or_ended {s s' : HomingSimulation α} {us : List StatusUpdate} (h : s.Handles us s')
    (ha : s.dispatch.active = true) (hb : s.dispatch.broken = false) :
    s'.dispatch.active = true ∨ s'.Ended := by
  rcases s.dispatch.batch_cases us with ⟨hext, -, -⟩ | ⟨decision, hends, hanswer⟩
  · left
    rw [h.dispatch, hext.kept.active, ha]
  · right
    refine ⟨h.dispatch ▸ hends.idle, h.unbroken hb, ?_⟩
    rcases h.answer with ⟨⟨outcomes, ho⟩, -⟩ | ⟨-, hlapse⟩
    · left
      have hdecided : outcomes.filterMap Dispatch.outcomeDecision? = [decision] := by
        rw [ho] at hanswer
        exact hanswer
      have hmem : decision ∈ outcomes.filterMap Dispatch.outcomeDecision? := by
        rw [hdecided]
        exact List.mem_singleton_self decision
      obtain ⟨outcome, -, hdecides⟩ := List.mem_filterMap.1 hmem
      cases outcome with
      | triggered event =>
        cases hdecides
        rw [h.dispatch, hends.trigger]
        rfl
      | _ => cases hdecides
    · exact .inr hlapse

theorem Handles.awaits {s s' : HomingSimulation α} {us : List StatusUpdate} {place : Nat}
    {heard clocks : List UInt64} {last : UInt64} (h : s.Handles us s') (ha : s.Awaits place (heard ++ clocks) last)
    (hr : Dispatch.reportsTo place us = heard.map (.running (UInt32.ofNat place)))
    (hactive : s'.dispatch.active = true) : s'.Awaits place clocks last := by
  have hb := h.unbroken ha.broken
  have hafter := (Dispatch.batch_after s.dispatch ha.broken ha.canTrigger us).2
  rw [← h.dispatch] at hafter
  refine ⟨hactive, hafter, hb, ?_⟩
  rw [h.dispatch] at hactive hb ⊢
  exact Dispatch.batch_expects ha.canTrigger ha.active ha.expects hr hactive hb

/-! ## Reports of a running controller -/

/-- The reports under way are those of a running controller that has read the clocks. -/
def Carries (s : HomingSimulation α) (place : Nat) (clocks : List UInt64) : Prop :=
  (s.underway place).map Prod.snd = clocks.map (.running (UInt32.ofNat place))

theorem Flows.carries {s s' : HomingSimulation α} {place : Nat} {c c' : SimulatedController α}
    {us : List StatusUpdate} {clocks sent future : List UInt64} {last : UInt64} (h : s.Flows place c us s' c')
    (ha : s.Awaits place (clocks ++ sent ++ future) last) (hc : s.Carries place clocks)
    (hnews : (s.news place s' c').map Prod.snd = sent.map (.running (UInt32.ofNat place))) :
    s'.Ended ∨ ∃ clocks', s'.Carries place clocks' ∧ s'.Awaits place (clocks' ++ future) last := by
  rcases h.handles.active_or_ended ha.active ha.broken with hactive | hended
  · right
    -- under way and sent make up one row of clocks, which is cut where the reports have reached the host
    obtain ⟨taken, hto, hreports⟩ := h.reports
    have hmap := congrArg (List.map Prod.snd) hreports
    rw [List.map_append, List.map_append, hc, hnews, ← List.map_append] at hmap
    obtain ⟨heard, clocks', hsplit, htaken, hrest⟩ := List.map_eq_append_iff.1 hmap
    have ha' : s.Awaits place (heard ++ (clocks' ++ future)) last := by
      rw [← List.append_assoc, ← hsplit]
      exact ha
    exact ⟨clocks', hrest.symm, h.handles.awaits ha' (by rw [hto, htaken]) hactive⟩
  · exact .inl hended

/-! ## The report of a trigger -/

/-- Among reports, behind those of a running controller that has read the clocks, is that of a trigger at
the clock `last`, and it arrives by `finish`. -/
def Brings (reports : List (Instant × StatusReport)) (place : Nat) (clocks : List UInt64) (last : UInt64)
    (finish : Instant) : Prop :=
  ∃ early time reason late, reports = early ++ (time, .tripped (UInt32.ofNat place) reason last) :: late ∧
    early.map Prod.snd = clocks.map (.running (UInt32.ofNat place)) ∧ time ≤ finish

theorem Brings.append {reports : List (Instant × StatusReport)} {place : Nat} {clocks : List UInt64}
    {last : UInt64} {finish : Instant} (h : Brings reports place clocks last finish)
    (more : List (Instant × StatusReport)) : Brings (reports ++ more) place clocks last finish := by
  obtain ⟨early, time, reason, late, rfl, hearly, htime⟩ := h
  exact ⟨early, time, reason, late ++ more, by rw [List.append_assoc, List.cons_append], hearly, htime⟩

/-- The trigger stays under way until it reaches the host, which ends the generation. -/
theorem Flows.brings {s s' : HomingSimulation α} {place : Nat} {c c' : SimulatedController α}
    {us : List StatusUpdate} {clocks : List UInt64} {last : UInt64} {finish : Instant}
    (h : s.Flows place c us s' c') (ha : s.Awaits place clocks last)
    (hb : Brings (s.underway place ++ s.news place s' c') place clocks last finish) :
    s'.Ended ∨ ∃ clocks', Brings (s'.underway place) place clocks' last finish ∧ s'.Awaits place clocks' last := by
  rcases h.handles.active_or_ended ha.active ha.broken with hactive | hended
  swap
  · exact .inl hended
  right
  obtain ⟨early, time, reason, late, hunder, hearly, htime⟩ := hb
  obtain ⟨taken, hto, hreports⟩ := h.reports
  rw [hunder] at hreports
  -- what has reached the host ends in front of the trigger, or takes it along
  rcases List.append_eq_append_iff.1 hreports with ⟨more, htaken, htrip⟩ | ⟨rest, hsplit, hrest⟩
  · cases more with
    | nil =>
      rw [List.append_nil] at htaken
      rw [← List.append_nil clocks] at ha
      have hheard : Dispatch.reportsTo place us = clocks.map (.running (UInt32.ofNat place)) := by
        rw [hto, htaken, hearly]
      exact ⟨[], ⟨[], time, reason, _, htrip.symm, rfl, htime⟩, h.handles.awaits ha hheard hactive⟩
    | cons x more =>
      obtain ⟨rfl, -⟩ := List.cons.inj htrip
      have hheard : Dispatch.reportsTo place us = clocks.map (.running (UInt32.ofNat place)) ++
          .tripped (UInt32.ofNat place) reason last :: more.map Prod.snd := by
        rw [hto, htaken, List.map_append, hearly, List.map_cons]
      have hunbroken := h.handles.unbroken ha.broken
      rw [h.handles.dispatch] at hunbroken hactive
      have hidle := Dispatch.batch_tripped ha.canTrigger ha.active ha.expects hheard hunbroken
      rw [hidle] at hactive
      cases hactive
  · rw [hsplit, List.map_append] at hearly
    obtain ⟨heard, clocks', hclocks, hheard, hleft⟩ := List.map_eq_append_iff.1 hearly.symm
    rw [hclocks] at ha
    exact ⟨clocks', ⟨rest, time, reason, _, hrest, hleft.symm, htime⟩,
      h.handles.awaits ha (by rw [hto, hheard]) hactive⟩

/-! ## Runs -/

/-- Once the generation has ended, it stays so. -/
theorem steps_ended {finish : Instant} {place : Nat} : ∀ {fuel : Nat} {s s' : HomingSimulation α}
    {c : SimulatedController α}, s.InLine place c → c.scenario.lostReports = none → s.Ended →
      steps finish fuel s = .ok s' → s'.Ended
  | 0, _, _, _, _, _, _, h => by cases h
  | fuel + 1, s, s', c, hl, hkept, he, h => by
    rw [steps] at h
    split at h
    · cases h
    · rename_i s₁ hs
      cases h
      obtain ⟨-, hdispatch, hlapse⟩ := step_eq_false hs
      exact ⟨hdispatch ▸ he.idle, hdispatch ▸ he.broken, by rw [hdispatch, hlapse]; exact he.noticed⟩
    · rename_i s₁ hs
      obtain ⟨us, c', hflows⟩ := hl.flows hkept he.broken hs
      exact steps_ended hflows.line (hflows.becomes.kept hkept) (hflows.handles.ended he) h

/-- A run cannot end before a report has arrived that arrives in time. -/
theorem InLine.not_over {s s' : HomingSimulation α} {place : Nat} {c : SimulatedController α} {finish : Instant}
    (h : s.InLine place c) {x : Instant × StatusReport} (hx : x ∈ s.underway place) (hle : x.1 ≤ finish) :
    s.step finish ≠ .ok (false, s') := by
  intro hs
  obtain ⟨hlate, -⟩ := step_eq_false hs
  obtain ⟨e, he, hxe⟩ := List.mem_filterMap.1 hx
  obtain ⟨r, -, rfl⟩ := Option.map_eq_some_iff.1 hxe
  have hsorted := h.sorted
  cases hp : s.events.pending with
  | nil =>
    rw [hp] at he
    cases he
  | cons f rest =>
    rw [hp] at he hlate hsorted
    have hfirst : f.time ≤ e.time := by
      rcases List.mem_cons.1 he with rfl | he
      · exact le_rfl
      · exact (List.pairwise_cons.1 hsorted).1 e he
    exact Nat.not_lt.2 (hfirst.trans hle) (hlate f rfl)

theorem steps_brings {finish : Instant} {place : Nat} {last : UInt64} : ∀ {fuel : Nat}
    {s s' : HomingSimulation α} {c : SimulatedController α} {clocks : List UInt64}, s.InLine place c →
      c.scenario.lostReports = none → s.Awaits place clocks last →
        Brings (s.underway place) place clocks last finish →
        steps finish fuel s = .ok s' → s'.Ended
  | 0, _, _, _, _, _, _, _, _, h => by cases h
  | fuel + 1, s, s', c, clocks, hl, hkept, ha, hb, h => by
    rw [steps] at h
    split at h
    · cases h
    · rename_i s₁ hs
      obtain ⟨early, time, reason, late, hunder, -, htime⟩ := hb
      exact absurd hs (hl.not_over (by rw [hunder]; exact List.mem_append_right _ List.mem_cons_self) htime)
    · rename_i s₁ hs
      obtain ⟨us, c', hflows⟩ := hl.flows hkept ha.broken hs
      have hkept' : c'.scenario.lostReports = none := hflows.becomes.kept hkept
      rcases hflows.brings ha (hb.append _) with hended | ⟨clocks', hb', ha'⟩
      · exact steps_ended hflows.line hkept' hended h
      · exact steps_brings hflows.line hkept' ha' hb' h

/-! ## What controllers have told -/

/-- The controller that reports in the event between two states, with the clock in its report. -/
def told? (s s' : HomingSimulation α) : Option (Nat × UInt64) := do
  let place ← s.reporter?
  let c ← s'.controllers[place]?
  return (place, c.reading s'.seconds)

/-- The state after a number of events, and what controllers have told on the way; none if there are not
as many events up to `finish`. -/
def course (finish : Instant) : Nat → HomingSimulation α → Option (HomingSimulation α × List (Nat × UInt64))
  | 0, s => some (s, [])
  | n + 1, s =>
    match s.step finish with
    | .ok (true, s') => (course finish n s').map fun (last, told) => (last, (told? s s').toList ++ told)
    | _ => none

/-- The clocks that the controller at a place has told. -/
def clocksOf (place : Nat) (told : List (Nat × UInt64)) : List UInt64 :=
  told.filterMap fun (q, clock) => if q = place then some clock else none

theorem clocksOf_append (place : Nat) (as bs : List (Nat × UInt64)) :
    clocksOf place (as ++ bs) = clocksOf place as ++ clocksOf place bs := List.filterMap_append

theorem course_succ {finish : Instant} {n : Nat} {s last : HomingSimulation α} {told : List (Nat × UInt64)}
    (h : s.course finish (n + 1) = some (last, told)) : ∃ s' rest, s.step finish = .ok (true, s') ∧
      s'.course finish n = some (last, rest) ∧ told = (told? s s').toList ++ rest := by
  rw [course] at h
  split at h
  · rename_i s' hs
    obtain ⟨⟨last', rest⟩, hrest, he⟩ := Option.map_eq_some_iff.1 h
    cases he
    exact ⟨s', rest, hs, hrest, rfl⟩
  · cases h

/-- A run goes through the states on its course. -/
theorem steps_course {finish : Instant} : ∀ {n fuel : Nat} {s last s' : HomingSimulation α}
    {told : List (Nat × UInt64)}, s.course finish n = some (last, told) → steps finish fuel s = .ok s' →
      ∃ fuel', steps finish fuel' last = .ok s'
  | 0, fuel, _, _, _, _, hc, h => by
    cases hc
    exact ⟨fuel, h⟩
  | n + 1, 0, _, _, _, _, _, h => by cases h
  | n + 1, fuel + 1, s, last, s', told, hc, h => by
    obtain ⟨s₁, rest, hs, hrest, -⟩ := course_succ hc
    rw [steps, hs] at h
    exact steps_course hrest h

theorem course_line {finish : Instant} {place : Nat} : ∀ {n : Nat} {s last : HomingSimulation α}
    {c : SimulatedController α} {told : List (Nat × UInt64)}, s.InLine place c →
      c.scenario.lostReports = none → s.dispatch.broken = false → s.course finish n = some (last, told) →
        ∃ c', last.InLine place c' ∧ c.Becomes c' ∧ last.dispatch.broken = false
  | 0, _, _, c, _, hl, _, hb, h => by
    cases h
    exact ⟨c, hl, .refl c, hb⟩
  | n + 1, s, last, c, told, hl, hkept, hb, h => by
    obtain ⟨s', rest, hs, hrest, -⟩ := course_succ h
    obtain ⟨us, c', hflows⟩ := hl.flows hkept hb hs
    obtain ⟨c'', hline, hbecomes, hunbroken⟩ := course_line hflows.line (hflows.becomes.kept hkept)
      (hflows.handles.unbroken hb) hrest
    exact ⟨c'', hline, hflows.becomes.trans hbecomes, hunbroken⟩

/-- A running controller tells the clock that it reads. -/
theorem Flows.told {s s' : HomingSimulation α} {place : Nat} {c c' : SimulatedController α}
    {us : List StatusUpdate} (h : s.Flows place c us s' c') (hrun : c'.stopped = none) :
    s.news place s' c' = [] ∧ clocksOf place (told? s s').toList = [] ∨
      s.news place s' c' = [(s'.clock.now + c'.latency, .running (UInt32.ofNat place) (c.clock.ofTime s'.seconds))] ∧
        clocksOf place (told? s s').toList = [c.clock.ofTime s'.seconds] := by
  obtain ⟨hreport, hreading⟩ := c'.reportAt_of_running hrun (UInt32.ofNat place) s'.seconds
  rw [SimulatedController.clockAt, h.becomes.clock] at hreport hreading
  by_cases hr : s.reporter? = some place
  · right
    simp [news, told?, hr, reportNow, h.line.controller, hreport, hreading, clocksOf]
  · left
    cases hq : s.reporter? with
    | none => simp [news, told?, hq, clocksOf]
    | some q =>
      have hne : q ≠ place := by
        rintro rfl
        exact hr hq
      cases hcq : s'.controllers[q]? <;> simp [news, told?, hq, hne, hcq, clocksOf]

/-- The generation has ended, or the dispatch is to hear of the reports under way, then of the clocks
`future`, and then of a trigger. -/
structure Follows (s : HomingSimulation α) (place : Nat) (c : SimulatedController α) (future : List UInt64)
    (last : UInt64) : Prop where
  line : s.InLine place c
  kept : c.scenario.lostReports = none
  waits : s.Ended ∨ ∃ clocks, s.Carries place clocks ∧ s.Awaits place (clocks ++ future) last

omit [Scalar α] in
theorem Follows.unbroken {s : HomingSimulation α} {place : Nat} {c : SimulatedController α}
    {future : List UInt64} {last : UInt64} (h : s.Follows place c future last) : s.dispatch.broken = false := by
  rcases h.waits with he | ⟨clocks, -, ha⟩
  · exact he.broken
  · exact ha.broken

theorem Follows.step {s s' : HomingSimulation α} {place : Nat} {c c' : SimulatedController α}
    {us : List StatusUpdate} {future : List UInt64} {last : UInt64}
    (h : s.Follows place c (clocksOf place (told? s s').toList ++ future) last) (hflows : s.Flows place c us s' c')
    (hrun : c'.stopped = none) : s'.Follows place c' future last := by
  refine ⟨hflows.line, hflows.becomes.kept h.kept, ?_⟩
  rcases h.waits with he | ⟨clocks, hc, ha⟩
  · exact .inl (hflows.handles.ended he)
  · rw [← List.append_assoc] at ha
    refine hflows.carries ha hc ?_
    rcases hflows.told hrun with ⟨hnews, htold⟩ | ⟨hnews, htold⟩ <;> rw [hnews, htold] <;> rfl

theorem course_follows {finish : Instant} {place : Nat} {future : List UInt64} {last : UInt64} :
    ∀ {n : Nat} {s s' : HomingSimulation α} {c c' : SimulatedController α} {told : List (Nat × UInt64)},
      s.course finish n = some (s', told) → s'.controllers[place]? = some c' → c'.stopped = none →
        s.Follows place c (clocksOf place told ++ future) last → s'.Follows place c' future last
  | 0, s, _, c, c', _, h, hc', _, hf => by
    cases h
    rw [hf.line.controller] at hc'
    cases hc'
    exact hf
  | n + 1, s, s', c, c', told, h, hc', hrun, hf => by
    obtain ⟨s₁, rest, hs, hrest, rfl⟩ := course_succ h
    obtain ⟨us, c₁, hflows⟩ := hf.line.flows hf.kept hf.unbroken hs
    have hkept₁ : c₁.scenario.lostReports = none := hflows.becomes.kept hf.kept
    obtain ⟨c'', hline, hbecomes, -⟩ := course_line hflows.line hkept₁ (hflows.handles.unbroken hf.unbroken) hrest
    rw [hline.controller] at hc'
    cases hc'
    rw [clocksOf_append, List.append_assoc] at hf
    exact course_follows hrest hline.controller hrun (hf.step hflows (hbecomes.running hrun))

/-- A running controller has told the clocks that it read at times that went on. -/
theorem course_times {finish : Instant} {place : Nat} :
    ∀ {n : Nat} {s s' : HomingSimulation α} {c c' : SimulatedController α} {told : List (Nat × UInt64)},
      s.course finish n = some (s', told) → s'.controllers[place]? = some c' → c'.stopped = none →
        s.InLine place c → c.scenario.lostReports = none → s.dispatch.broken = false →
          s.clock.now ≤ s'.clock.now ∧ ∃ times : List Instant,
            clocksOf place told = times.map (fun t => c.clock.ofTime (Instant.seconds t)) ∧
              times.Pairwise (· ≤ ·) ∧ ∀ t ∈ times, s.clock.now ≤ t ∧ t ≤ s'.clock.now
  | 0, s, _, c, c', _, h, _, _, _, _, _ => by
    cases h
    exact ⟨le_rfl, [], rfl, List.Pairwise.nil, fun t ht => by cases ht⟩
  | n + 1, s, s', c, c', told, h, hc', hrun, hl, hkept, hb => by
    obtain ⟨s₁, rest, hs, hrest, rfl⟩ := course_succ h
    obtain ⟨us, c₁, hflows⟩ := hl.flows hkept hb hs
    have hkept₁ : c₁.scenario.lostReports = none := hflows.becomes.kept hkept
    have hb₁ := hflows.handles.unbroken hb
    obtain ⟨c'', hline, hbecomes, -⟩ := course_line hflows.line hkept₁ hb₁ hrest
    rw [hline.controller] at hc'
    cases hc'
    obtain ⟨hnow, times, hclocks, hsorted, hbounds⟩ :=
      course_times hrest hline.controller hrun hflows.line hkept₁ hb₁
    rw [hflows.becomes.clock] at hclocks
    refine ⟨hflows.clock.trans hnow, ?_⟩
    rw [clocksOf_append, hclocks]
    have hlater : ∀ t ∈ times, s.clock.now ≤ t ∧ t ≤ s'.clock.now := fun t ht =>
      ⟨hflows.clock.trans (hbounds t ht).1, (hbounds t ht).2⟩
    rcases hflows.told (hbecomes.running hrun) with ⟨-, htold⟩ | ⟨-, htold⟩
    · exact ⟨times, by rw [htold]; rfl, hsorted, hlater⟩
    · refine ⟨s₁.clock.now :: times, by rw [htold]; rfl, ?_, fun t ht => ?_⟩
      · exact List.pairwise_cons.2 ⟨fun t ht => (hbounds t ht).1, hsorted⟩
      · rcases List.mem_cons.1 ht with rfl | ht
        · exact ⟨hflows.clock, hnow⟩
        · exact hlater t ht

end HomingSimulation

end PrinterMotion
