/-
Commands to stop. The messages of a run count how often each controller is sent one, for controllers have
distinct names: commands that move expire clocks do not count, and the end of a generation counts once for
each controller but the winner. The winner is one whose report told that it has stopped.
-/
import PrinterMotion.Proofs.Simulation.Trail

namespace PrinterMotion

variable {α : Type}

/-! ## Names -/

theorem Scenario.names_of_validate [Scalar α] {scenario : Scenario α} (h : scenario.validate = .ok ()) :
    (scenario.controllers.map fun c => c.name).Nodup := by
  have hcheck : ∀ (cs : List (ControllerScenario α)) (before : List String), before.Nodup →
      checkControllers before cs = .ok () → (before ++ cs.map fun c => c.name).Nodup := by
    intro cs
    induction cs with
    | nil =>
      intro before hb _
      rwa [List.map_nil, List.append_nil]
    | cons c rest ih =>
      intro before hb hok
      rw [checkControllers] at hok
      split at hok
      · cases hok
      · rename_i hc
        rw [List.map_cons, List.append_cons]
        refine ih _ ?_ hok
        have hnew : c.name ∉ before := by
          intro hmem
          simp only [checkController] at hc
          repeat' split at hc
          all_goals simp_all
        refine List.nodup_append.2 ⟨hb, List.nodup_singleton _, fun a ha b hb => ?_⟩
        rw [List.mem_singleton.1 hb]
        rintro rfl
        exact hnew ha
  unfold validate at h
  split at h
  · cases h
  · split at h
    · cases h
    · exact hcheck _ [] List.nodup_nil h

/-! ## The trigger that wins -/

namespace Dispatch

variable [Scalar α]

/-- Only a report of a stopped controller is found to be a trigger. -/
theorem noteAll_trip : ∀ (us : List StatusUpdate) (d : Dispatch α) (i : Nat) {u : StatusUpdate} {clock : UInt64}
    {hostTime : α}, us[i]? = some u → (d.noteAll us).2[i]? = some (.trip clock hostTime) →
      u.report.canTrigger = false
  | v :: us, d, 0, u, clock, hostTime, hu, hf => by
    cases hu
    simp only [noteAll, List.getElem?_cons_zero, Option.some.injEq] at hf
    rcases note_cases d v with h | ⟨place, ep, -, -, h⟩
    · rw [h] at hf
      cases hf
    · rw [h] at hf
      simp only [Endpoint.note] at hf
      split at hf
      · cases hf
      · split at hf
        · rename_i hcan
          simpa using hcan
        · split at hf <;> cases hf
  | v :: us, d, i + 1, u, clock, hostTime, hu, hf => noteAll_trip us (d.note v).1 i hu hf

omit [Scalar α] in
/-- The decision among outcomes is a trigger. -/
theorem triggered_of_outcomes {outcomes : List (StatusOutcome α)} {decision : Decision α}
    (h : answerDecisions (.ok outcomes) = [decision]) : ∃ event, decision = .triggered event := by
  have hmem : decision ∈ outcomes.filterMap outcomeDecision? := by
    rw [show outcomes.filterMap outcomeDecision? = [decision] from h]
    exact List.mem_singleton_self decision
  obtain ⟨outcome, -, hdecides⟩ := List.mem_filterMap.1 hmem
  cases outcome with
  | triggered event =>
    cases hdecides
    exact ⟨event, rfl⟩
  | _ => cases hdecides

/-- The trigger of a batch is that of one of its reports. -/
theorem batch_trigger {d : Dispatch α} {us : List StatusUpdate} {event : TriggerEvent α}
    (hn : d.trigger = none) (h : (d.batch us).1.trigger = some event) :
    ∃ u ∈ us, u.place = some event.endpoint ∧ u.report.canTrigger = false ∧ u.report.reason = event.reason := by
  have hkept : (d.noteAll us).1.trigger = none := (noteAll_kept us d).trigger.trans hn
  have hfound := noteAll_found us d
  have htrip : ∀ (i : Nat) (u : StatusUpdate) (clock : UInt64) (hostTime : α), us[i]? = some u →
      (d.noteAll us).2[i]? = some (.trip clock hostTime) → u.report.canTrigger = false :=
    fun i _ _ _ hu hf => noteAll_trip us d i hu hf
  obtain ⟨d', fs, hnote⟩ : ∃ d' fs, d.noteAll us = (d', fs) := ⟨_, _, rfl⟩
  simp only [hnote] at hkept hfound htrip
  unfold batch at h
  split at h
  · rw [hn] at h
    cases h
  · simp only [hnote] at h
    split at h
    · rename_i t ht
      split at h
      · simp [abort, broadcast, halt, hkept] at h
      · -- the winner is one of the reports that were found to be triggers
        cases h
        obtain ⟨i, u, hu, hf, heq⟩ := exists_of_mem_trips us fs 0 t (firstBy_mem ht)
        obtain ⟨v, p, hv, hp, -⟩ := hfound i _ hf (by simp)
        rw [hu] at hv
        cases hv
        refine ⟨u, List.mem_of_getElem? hu, ?_, htrip i u _ _ hu hf, by rw [heq]⟩
        rw [hp, heq, hp]
        rfl
    · simp [abort, broadcast, halt, hkept] at h
    · rw [(extendAll_extends us fs d').kept.trigger, hkept] at h
      cases h

end Dispatch

namespace HomingSimulation

/-! ## Triggers sent -/

/-- How often controllers of a name have been sent a trigger. -/
def triggersTo (s : HomingSimulation α) (name : String) : Nat :=
  s.messages.countP fun m => m.kind = .trigger ∧ m.controller = name

/-- How often the controllers at their places have been sent a trigger. -/
def Told (s : HomingSimulation α) (count : Nat → Nat) : Prop :=
  ∀ (place : Nat) (c : SimulatedController α), s.controllers[place]? = some c →
    s.triggersTo c.scenario.name = count place

/-- How many of the posts bring a trigger to the controller at a place. -/
def triggersAmong (posts : List Post) (place : Nat) : Nat :=
  (handed place posts).countP fun k => MessageKind.ofCommand k = .trigger

theorem triggersAmong_cons (p : Post) (posts : List Post) (place : Nat) :
    triggersAmong (p :: posts) place = triggersAmong [p] place + triggersAmong posts place := by
  have hposts : handed place (p :: posts) = handed place [p] ++ handed place posts := handed_append place [p] posts
  rw [triggersAmong, hposts, List.countP_append]
  rfl

/-- The names of the controllers are distinct. -/
def Distinct (s : HomingSimulation α) : Prop := (s.controllers.map fun c => c.scenario.name).Nodup

theorem Distinct.place_eq {s : HomingSimulation α} (h : s.Distinct) {p q : Nat} {c d : SimulatedController α}
    (hc : s.controllers[p]? = some c) (hd : s.controllers[q]? = some d)
    (hn : c.scenario.name = d.scenario.name) : p = q := by
  have hp : p < (s.controllers.map fun c => c.scenario.name).length := by
    rw [List.length_map]
    exact (List.getElem?_eq_some_iff.1 hc).1
  refine (List.getElem?_inj hp h).1 ?_
  rw [List.getElem?_map, List.getElem?_map, hc, hd, Option.map_some, Option.map_some, hn]

theorem Lasts.distinct {s s' : HomingSimulation α} (h : s.Lasts s') (hd : s.Distinct) : s'.Distinct := by
  rw [Distinct, h.names]
  exact hd

theorem Told.lasts {s s' : HomingSimulation α} {count : Nat → Nat} (h : s.Told count) (hl : s.Lasts s')
    (hlog : s'.log = s.log) : s'.Told count := by
  intro place c' hc'
  obtain ⟨c, hc, hlasts⟩ := hl.before hc'
  rw [hlasts.becomes.scenario, ← h place c hc, triggersTo, messages, hlog]
  rfl

variable [Scalar α]

theorem Told.deliver {s s' : HomingSimulation α} {p : Post} {count : Nat → Nat} (h : s.Told count)
    (hd : s.Distinct) (hs : s.deliver p = .ok s') :
    s'.Told fun place => count place + triggersAmong [p] place := by
  intro place c hc
  rw [(deliver_undisturbed hs).controllers] at hc
  have hcount := h place c hc
  rcases deliver_eq_ok hs with ⟨hnone, rfl⟩ | ⟨d, hp, rfl⟩
  · have hne : p.endpoint ≠ place := by
      rintro rfl
      rw [hnone] at hc
      cases hc
    simp [hcount, triggersAmong, handed, hne]
  · have hname : d.scenario.name = c.scenario.name ↔ p.endpoint = place := by
      refine ⟨fun hn => hd.place_eq hp hc hn, ?_⟩
      rintro rfl
      rw [hp] at hc
      cases hc
      rfl
    simp only [triggersTo, messages, HomingSimulation.schedule, commandRecord, List.countP_reverse,
      List.countP_cons] at hcount ⊢
    rw [hcount]
    by_cases hplace : p.endpoint = place <;>
      by_cases hk : MessageKind.ofCommand p.command = .trigger <;> simp [triggersAmong, handed, hname, hplace, hk]

theorem Told.deliverAll : ∀ {posts : List Post} {s s' : HomingSimulation α} {count : Nat → Nat}, s.Told count →
    s.Distinct → s.deliverAll posts = .ok s' → s'.Told fun place => count place + triggersAmong posts place
  | [], _, _, _, h, _, hs => by
    cases hs
    exact h
  | p :: posts, s, s', count, h, hd, hs => by
    rw [HomingSimulation.deliverAll, List.foldlM_cons] at hs
    obtain ⟨s₁, hp, hs⟩ := bind_eq_ok.1 hs
    have hd₁ : s₁.Distinct := (lasts_of_eq (deliver_undisturbed hp).controllers).distinct hd
    have hrest := (h.deliver hd hp).deliverAll hd₁ hs
    simp only [Nat.add_assoc, ← triggersAmong_cons] at hrest
    exact hrest

omit [Scalar α] in
theorem ofCommand_trigger {ep : Endpoint α} (h : ep.tags = MessageKind.tags) (reason : Reason) :
    MessageKind.ofCommand (ep.triggerCommand reason) = .trigger := by
  simp [MessageKind.ofCommand, Endpoint.triggerCommand, Command.tag?, h, MessageKind.tags]

omit [Scalar α] in
theorem ofCommand_timeout {ep : Endpoint α} (h : ep.tags = MessageKind.tags) {command : Command}
    (ht : ep.IsTimeout command) : MessageKind.ofCommand command = .setTimeout := by
  rw [MessageKind.ofCommand, Command.tag?, ht, h]
  rfl

omit [Scalar α] in
/-- Commands that move expire clocks bring no trigger. -/
theorem triggersAmong_timeouts {eps : List (Endpoint α)} (h : ∀ ep ∈ eps, ep.tags = MessageKind.tags)
    {posts : List Post} (hp : ∀ p ∈ posts, ∃ ep, eps[p.endpoint]? = some ep ∧ ep.IsTimeout p.command)
    (place : Nat) : triggersAmong posts place = 0 := by
  refine List.countP_eq_zero.2 fun k hk => ?_
  obtain ⟨p, hmem, rfl⟩ := List.mem_map.1 hk
  obtain ⟨ep, hep, ht⟩ := hp p (List.mem_of_mem_filter hmem)
  simp [ofCommand_timeout (h ep (List.mem_of_getElem? hep)) ht]

omit [Scalar α] in
/-- The end of a generation, of which no endpoint has been told, brings a trigger to all but the winner. -/
theorem triggersAmong_ends {d d' : Dispatch α} {posts : List Post} {decision : Dispatch.Decision α}
    (h : Dispatch.Ends d posts decision d') (ht : ∀ ep ∈ d.endpoints, ep.tags = MessageKind.tags)
    (hn : ∀ ep ∈ d.endpoints, ep.notified = false) {place : Nat} (hlt : place < d.endpoints.length) :
    triggersAmong posts place = if decision.winner? = some place then 0 else 1 := by
  have hmem := List.getElem_mem hlt
  rw [triggersAmong, h.handed, List.getElem?_eq_getElem hlt]
  split
  · rfl
  · simp [Endpoint.untold, hn _ hmem, ofCommand_trigger (ht _ hmem)]

end HomingSimulation

end PrinterMotion
