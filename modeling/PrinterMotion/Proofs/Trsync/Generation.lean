/-
The law of a generation. Whatever calls are made on a dispatch, in whatever order and over links that
fail at any time, each generation takes at most one decision, and the decision reaches every endpoint
once. The history of a run is split by generation, and each part is in one of three phases: it was never
armed, it is running, or it has been decided.
-/
import PrinterMotion.Proofs.Trsync.Calls

namespace PrinterMotion

variable {α : Type}

namespace Dispatch

/-! ## Runs and their generations -/

/-- The starts that armed all endpoints. -/
def armedBy (es : List (Event α)) : List (Nat × Reason) := es.filterMap Event.armed?

@[simp] theorem armedBy_append (es : List (Event α)) (e : Event α) :
    armedBy (es ++ [e]) = armedBy es ++ e.armed?.toList := by
  cases h : e.armed? <;> simp [armedBy, h]

variable [Scalar α]

/-- The dispatch after calls. -/
def runFrom (d : Dispatch α) (calls : List (Call α)) : Dispatch α :=
  calls.foldl (fun d c => (d.call c).1) d

/-- The calls with the dispatches they found. -/
def history (d : Dispatch α) : List (Call α) → List (Event α)
  | [] => []
  | c :: cs => ⟨d, c⟩ :: history (d.call c).1 cs

theorem runFrom_append (d : Dispatch α) (cs : List (Call α)) (c : Call α) :
    runFrom d (cs ++ [c]) = ((runFrom d cs).call c).1 := by
  simp [runFrom]

theorem history_append : ∀ (cs : List (Call α)) (d : Dispatch α) (c : Call α),
    history d (cs ++ [c]) = history d cs ++ [⟨runFrom d cs, c⟩]
  | [], _, _ => rfl
  | b :: cs, d, c => by
    simp only [List.cons_append, history, history_append cs, runFrom, List.foldl_cons]

/-- The calls that belong to a generation, which are those that leave it. -/
def within (g : Nat) (es : List (Event α)) : List (Event α) :=
  es.filter fun e => e.after.generation = g

theorem within_append (g : Nat) (es : List (Event α)) (e : Event α) :
    within g (es ++ [e]) = if e.after.generation = g then within g es ++ [e] else within g es := by
  by_cases h : e.after.generation = g <;> simp [within, h]

/-- The decisions that answers tell of. -/
def decisionsOf (es : List (Event α)) : List (Decision α) := es.flatMap Event.decisions

/-- The trigger commands that were handed to the endpoint at a place. -/
def triggersTo (k : Nat) (es : List (Event α)) : List Command := handed k (es.flatMap Event.triggers)

@[simp] theorem decisionsOf_append (es : List (Event α)) (e : Event α) :
    decisionsOf (es ++ [e]) = decisionsOf es ++ e.decisions := by
  simp [decisionsOf]

@[simp] theorem triggersTo_append (k : Nat) (es : List (Event α)) (e : Event α) :
    triggersTo k (es ++ [e]) = triggersTo k es ++ handed k e.triggers := by
  simp [triggersTo]

/-! ## Phases -/

/-- No start has armed all endpoints; a failed one has told each of them at most once. -/
structure Unarmed (es : List (Event α)) : Prop where
  decisions : decisionsOf es = []
  armed : armedBy es = []
  once : ∀ k, (triggersTo k es).length ≤ 1

/-- The endpoints are armed, and none has been told to stop. -/
structure Running (d : Dispatch α) (es : List (Event α)) : Prop where
  active : d.active = true
  trigger : d.trigger = none
  notified : ∀ ep ∈ d.endpoints, ep.notified = false
  decisions : decisionsOf es = []
  armed : armedBy es = [(d.endpoints.length, d.reason)]
  triggers : ∀ k, triggersTo k es = []

/-- A decision has been taken, and every armed endpoint but the winner has been told once. -/
structure Decided (eps : List (Endpoint α)) (g : Nat) (es : List (Event α)) (decision : Decision α)
    (n : Nat) (reason : Reason) : Prop where
  decisions : decisionsOf es = [decision]
  armed : armedBy es = [(n, reason)]
  generation : ∀ event, decision.event? = some event → event.generation = g
  winner : ∀ k, decision.winner? = some k → k < n
  told : ∀ k < n, ∃ ep, eps[k]? = some ep ∧ triggersTo k es =
    if decision.winner? = some k then [] else [ep.triggerCommand (decision.told reason)]
  others : ∀ k, n ≤ k → triggersTo k es = []

/-- How far the calls of a generation have come. -/
inductive Phase (d : Dispatch α) (g : Nat) (es : List (Event α)) : Prop where
  | unarmed (calls : Unarmed es) (now : g = d.generation → d.active = false ∧ d.trigger = none)
  | running (now : g = d.generation) (calls : Running d es)
  | decided {decision : Decision α} {n : Nat} {reason : Reason}
      (calls : Decided d.endpoints g es decision n reason)
      (now : g = d.generation → d.active = false ∧ d.trigger = decision.event?)

theorem unarmed_nil : Unarmed ([] : List (Event α)) := ⟨rfl, rfl, fun _ => Nat.zero_le _⟩

/-- What was decided stays so when endpoints are registered behind those there are. -/
theorem Decided.mono {eps eps' : List (Endpoint α)} {g n : Nat} {es : List (Event α)} {decision : Decision α}
    {reason : Reason} (h : eps.map Endpoint.address <+: eps'.map Endpoint.address)
    (hd : Decided eps g es decision n reason) : Decided eps' g es decision n reason := by
  refine { hd with told := fun k hk => ?_ }
  obtain ⟨ep, he, ht⟩ := hd.told k hk
  obtain ⟨new, hnew⟩ := h
  have hlt : k < (eps.map Endpoint.address).length := by
    simpa using (List.getElem?_eq_some_iff.1 he).1
  have hm : (eps'.map Endpoint.address)[k]? = some ep.address := by
    rw [← hnew, List.getElem?_append_left hlt, List.getElem?_map, he, Option.map_some]
  rw [List.getElem?_map] at hm
  obtain ⟨ep', he', ha⟩ := Option.map_eq_some_iff.1 hm
  exact ⟨ep', he', by rw [ht, Endpoint.triggerCommand_of_address ha]⟩

/-- A phase is not changed by a call that hands over no trigger, arms nothing and decides nothing. -/
theorem Decided.quiet {eps : List (Endpoint α)} {g n : Nat} {es : List (Event α)} {decision : Decision α}
    {reason : Reason} {e : Event α} (hq : e.Quiet) (hd : Decided eps g es decision n reason) :
    Decided eps g (es ++ [e]) decision n reason := by
  refine ⟨?_, ?_, hd.generation, hd.winner, ?_, ?_⟩
  · simp [hq.decisions, hd.decisions]
  · simp [hq.armed, hd.armed]
  · simpa [hq.triggers] using hd.told
  · simpa [hq.triggers] using hd.others

theorem Unarmed.quiet {es : List (Event α)} {e : Event α} (hq : e.Quiet) (hu : Unarmed es) :
    Unarmed (es ++ [e]) := by
  refine ⟨?_, ?_, ?_⟩
  · simp [hq.decisions, hu.decisions]
  · simp [hq.armed, hu.armed]
  · simpa [hq.triggers] using hu.once

theorem Running.quiet {es : List (Event α)} {e : Event α} (hq : e.Quiet) (hr : Running e.before es) :
    Running e.after (es ++ [e]) := by
  obtain ⟨new, hnew, hnil⟩ := hq.endpoints
  rw [hnil hr.active, List.append_nil] at hnew
  have hlen : e.after.endpoints.length = e.before.endpoints.length := by
    simpa using congrArg List.length hnew
  refine ⟨hq.active.trans hr.active, hq.trigger.trans hr.trigger, fun ep hep => ?_, ?_, ?_, ?_⟩
  · obtain ⟨k, hk⟩ := List.getElem?_of_mem hep
    obtain ⟨ep', hk', hs⟩ := exists_part_eq hnew.symm hk
    rw [← hr.notified ep' (List.mem_of_getElem? hk')]
    exact (congrArg Prod.snd hs).symm
  · simp [hq.decisions, hr.decisions]
  · simp [hq.armed, hr.armed, hlen, hq.reason]
  · simpa [hq.triggers] using hr.triggers

/-- A decision on a running generation reaches every endpoint but the winner. -/
theorem Running.decide {es : List (Event α)} {e : Event α} {decision : Decision α} (hd : e.Decides decision)
    (hr : Running e.before es) :
    Decided e.after.endpoints e.before.generation (es ++ [e]) decision e.before.endpoints.length
      e.before.reason := by
  have hdec : Decided e.before.endpoints e.before.generation (es ++ [e]) decision e.before.endpoints.length
      e.before.reason := by
    refine ⟨?_, ?_, hd.ends.current, hd.ends.registered, fun k hk => ?_, fun k hk => ?_⟩
    · simp [hd.decisions, hr.decisions]
    · simp [hd.armed, hr.armed]
    · refine ⟨e.before.endpoints[k], List.getElem?_eq_getElem hk, ?_⟩
      have hn := hr.notified e.before.endpoints[k] (List.getElem_mem hk)
      simp [hr.triggers, hd.ends.handed, List.getElem?_eq_getElem hk, Endpoint.untold, hn]
    · simp [hr.triggers, hd.ends.handed, List.getElem?_eq_none hk]
  refine hdec.mono ?_
  rw [hd.ends.address]

/-! ## Every call keeps the phases -/

/-- What a run has done so far, generation by generation. -/
structure Chronicle (d : Dispatch α) (es : List (Event α)) : Prop where
  past : ∀ e ∈ es, e.after.generation ≤ d.generation
  phase : ∀ g, Phase d g (within g es)

theorem chronicle_nil : Chronicle (α := α) empty [] :=
  ⟨by simp, fun _ => .unarmed unarmed_nil fun _ => ⟨rfl, rfl⟩⟩

/-- A phase of another generation than the current one is closed. -/
theorem Phase.closed {d d' : Dispatch α} {g : Nat} {es : List (Event α)} (h : Phase d g es)
    (hidle : g = d.generation → d.active = false) (hg : g ≠ d'.generation)
    (ha : d.endpoints.map Endpoint.address <+: d'.endpoints.map Endpoint.address) : Phase d' g es := by
  cases h with
  | unarmed calls now => exact .unarmed calls fun h => absurd h hg
  | running now calls => exact absurd calls.active (by rw [hidle now]; exact Bool.false_ne_true)
  | decided calls now => exact .decided (calls.mono ha) fun h => absurd h hg

theorem Phase.quiet {e : Event α} (hq : e.Quiet) {g : Nat} {es : List (Event α)}
    (h : Phase e.before g (within g es)) : Phase e.after g (within g (es ++ [e])) := by
  obtain ⟨new, hnew, -⟩ := hq.endpoints
  have haddr : e.before.endpoints.map Endpoint.address <+: e.after.endpoints.map Endpoint.address := by
    refine ⟨new.map Prod.fst, ?_⟩
    simpa [Endpoint.standing, Function.comp_def] using (congrArg (List.map Prod.fst) hnew).symm
  rw [within_append]
  by_cases hg : e.after.generation = g
  · rw [if_pos hg]
    have hg' : g = e.before.generation := by rw [← hg, hq.generation]
    cases h with
    | unarmed calls now =>
      exact .unarmed (calls.quiet hq) fun _ => by rw [hq.active, hq.trigger]; exact now hg'
    | running now calls => exact .running hg.symm (calls.quiet hq)
    | decided calls now =>
      exact .decided ((calls.quiet hq).mono haddr) fun _ => by rw [hq.active, hq.trigger]; exact now hg'
  · rw [if_neg hg]
    exact h.closed (fun h => absurd (hq.generation.trans h.symm) hg) (Ne.symm hg) haddr

theorem Phase.begins {e : Event α} (hb : e.Begins) {g : Nat} {es : List (Event α)}
    (hpast : ∀ e' ∈ es, e'.after.generation ≤ e.before.generation) (h : Phase e.before g (within g es)) :
    Phase e.after g (within g (es ++ [e])) := by
  rw [within_append]
  by_cases hg : e.after.generation = g
  · have hnil : within g es = [] := by
      rw [within, List.filter_eq_nil_iff]
      intro e' he'
      have := hpast e' he'
      have := hb.generation
      simp only [decide_eq_true_eq]
      omega
    rw [if_pos hg, hnil]
    rcases hb.outcome with ⟨hact, harm, htr, hnot⟩ | ⟨hact, harm, honce⟩
    · refine .running hg.symm ⟨hact, hb.trigger, hnot, ?_, ?_, ?_⟩
      · simp [decisionsOf, hb.decisions]
      · simp [armedBy, harm]
      · simp [triggersTo, htr]
    · refine .unarmed ⟨?_, ?_, ?_⟩ fun _ => ⟨hact, hb.trigger⟩
      · simp [decisionsOf, hb.decisions]
      · simp [armedBy, harm]
      · simpa [triggersTo] using honce
  · rw [if_neg hg]
    exact h.closed (fun _ => hb.idle) (Ne.symm hg) (by rw [hb.address])

theorem Phase.decides {e : Event α} {decision : Decision α} (hd : e.Decides decision) {g : Nat}
    {es : List (Event α)} (h : Phase e.before g (within g es)) : Phase e.after g (within g (es ++ [e])) := by
  rw [within_append]
  by_cases hg : e.after.generation = g
  · rw [if_pos hg]
    have hg' : g = e.before.generation := by rw [← hg, hd.ends.generation]
    cases h with
    | unarmed calls now => cases (now hg').1.symm.trans hd.ends.active
    | running now calls =>
      rw [hg'] at calls ⊢
      refine .decided (calls.decide hd) fun _ => ⟨hd.ends.idle, ?_⟩
      rw [hd.ends.trigger, calls.trigger, Option.or_none]
    | decided calls now => cases (now hg').1.symm.trans hd.ends.active
  · rw [if_neg hg]
    refine h.closed (fun h => ?_) (Ne.symm hg) (by rw [hd.ends.address])
    exact absurd (hd.ends.generation.trans h.symm) hg

theorem Event.generation_le (e : Event α) : e.before.generation ≤ e.after.generation := by
  rcases e.cases with hq | hb | ⟨decision, hd⟩
  · exact hq.generation.ge
  · rw [hb.generation]; exact Nat.le_succ _
  · exact hd.ends.generation.ge

/-- One more call keeps the chronicle. -/
theorem Chronicle.step {e : Event α} {es : List (Event α)} (h : Chronicle e.before es) :
    Chronicle e.after (es ++ [e]) := by
  refine ⟨fun e' he' => ?_, fun g => ?_⟩
  · rcases List.mem_append.1 he' with he' | he'
    · exact (h.past e' he').trans e.generation_le
    · rw [List.mem_singleton.1 he']
  · rcases e.cases with hq | hb | ⟨decision, hd⟩
    · exact (h.phase g).quiet hq
    · exact (h.phase g).begins hb h.past
    · exact (h.phase g).decides hd

theorem chronicle_history (calls : List (Call α)) :
    Chronicle (runFrom empty calls) (history empty calls) := by
  induction calls using List.reverseRecOn with
  | nil => exact chronicle_nil
  | append_singleton cs c ih =>
    rw [runFrom_append, history_append]
    exact Chronicle.step (e := ⟨runFrom empty cs, c⟩) ih

/-! ## The law of a generation -/

/-- What the calls of one generation do, as seen from the dispatch after the run. -/
structure Lawful (d : Dispatch α) (g : Nat) (es : List (Event α)) : Prop where
  /-- Every call hands over its timeouts before its triggers, each addressed to its endpoint. -/
  posts : ∀ e ∈ es, e.posts = e.timeouts ++ e.triggers ∧
    (∀ p ∈ e.timeouts, ∃ ep, e.before.endpoints[p.endpoint]? = some ep ∧ ep.IsTimeout p.command) ∧
    ∀ p ∈ e.triggers, ∃ ep, e.before.endpoints[p.endpoint]? = some ep ∧ ep.IsTrigger p.command
  /-- At most one decision is taken. -/
  decisions : (decisionsOf es).length ≤ 1
  /-- No endpoint is told to stop twice. -/
  once : ∀ k, (triggersTo k es).length ≤ 1
  /-- A generation that was armed and is over was decided, and all endpoints know. -/
  ended : ∀ n reason, (n, reason) ∈ armedBy es → g ≠ d.generation ∨ d.active = false →
    ∃ decision, decisionsOf es = [decision] ∧ (∀ k, decision.winner? = some k → k < n) ∧
      ∀ k < n, ∃ ep, d.endpoints[k]? = some ep ∧ triggersTo k es =
        if decision.winner? = some k then [] else [ep.triggerCommand (decision.told reason)]
  /-- Expire clocks are sent only by the start that begins the generation and by calls that find the
  dispatch active and leave it so. -/
  timeouts : ∀ e ∈ es, e.timeouts ≠ [] → (e.before.active = true ∧ e.after.active = true) ∨
    (∃ reason, e.call = .start reason) ∧ e.before.active = false ∧ e.before.generation + 1 = g
  /-- The dispatch remembers the trigger that decided its generation, and no other. -/
  trigger : g = d.generation → ∀ event, d.trigger = some event ↔ .triggered event ∈ decisionsOf es
  /-- A trigger is of the generation it ends. -/
  current : ∀ event, .triggered event ∈ decisionsOf es → event.generation = g

theorem Event.posts_lawful (e : Event α) : e.posts = e.timeouts ++ e.triggers ∧
    (∀ p ∈ e.timeouts, ∃ ep, e.before.endpoints[p.endpoint]? = some ep ∧ ep.IsTimeout p.command) ∧
    ∀ p ∈ e.triggers, ∃ ep, e.before.endpoints[p.endpoint]? = some ep ∧ ep.IsTrigger p.command := by
  refine ⟨e.posts_eq, ?_⟩
  rcases e.cases with hq | hb | ⟨decision, hd⟩
  · exact ⟨hq.isTimeout, by simp [hq.triggers]⟩
  · exact ⟨hb.isTimeout, hb.isTrigger⟩
  · exact ⟨by simp [hd.timeouts], hd.ends.isTrigger⟩

theorem Event.timeouts_lawful {e : Event α} (h : e.timeouts ≠ []) :
    (e.before.active = true ∧ e.after.active = true) ∨
      (∃ reason, e.call = .start reason) ∧ e.before.active = false ∧
        e.before.generation + 1 = e.after.generation := by
  rcases e.cases with hq | hb | ⟨decision, hd⟩
  · exact .inl ⟨hq.timeouts h, hq.active.trans (hq.timeouts h)⟩
  · exact .inr ⟨hb.start, hb.idle, hb.generation.symm⟩
  · exact absurd hd.timeouts h

/-- The calls of each generation of a run are lawful: a decision is taken at most once, it ends the
generation, and every endpoint but the winner is told of it exactly once. -/
theorem generation_lawful (calls : List (Call α)) (g : Nat) :
    Lawful (runFrom empty calls) g (within g (history empty calls)) := by
  obtain ⟨es, hes⟩ : ∃ es, es = within g (history empty calls) := ⟨_, rfl⟩
  have hphase := (chronicle_history calls).phase g
  have hgen : ∀ e ∈ es, e.after.generation = g := by
    intro e he
    rw [hes] at he
    simpa using (List.mem_filter.1 he).2
  rw [← hes] at hphase ⊢
  have posts : ∀ e ∈ es, _ := fun e _ => e.posts_lawful
  have timeouts : ∀ e ∈ es, e.timeouts ≠ [] → _ := fun e he h => hgen e he ▸ e.timeouts_lawful h
  cases hphase with
  | unarmed calls now =>
    refine ⟨posts, by simp [calls.decisions], calls.once, ?_, timeouts, ?_, ?_⟩
    · intro n reason h
      rw [calls.armed] at h
      cases h
    · intro h event
      simp [(now h).2, calls.decisions]
    · simp [calls.decisions]
  | running now calls =>
    refine ⟨posts, by simp [calls.decisions], by simp [calls.triggers], ?_, timeouts, ?_, ?_⟩
    · rintro n reason - (h | h)
      · exact absurd now h
      · cases h.symm.trans calls.active
    · intro _ event
      simp [calls.trigger, calls.decisions]
    · simp [calls.decisions]
  | @decided decision n reason calls now =>
    refine ⟨posts, by simp [calls.decisions], fun k => ?_, ?_, timeouts, ?_, ?_⟩
    · by_cases hk : k < n
      · obtain ⟨ep, -, ht⟩ := calls.told k hk
        rw [ht]
        split <;> simp
      · simp [calls.others k (Nat.le_of_not_lt hk)]
    · intro m r h _
      rw [calls.armed, List.mem_singleton] at h
      cases h
      exact ⟨decision, calls.decisions, calls.winner, calls.told⟩
    · intro h event
      rw [(now h).2, calls.decisions, List.mem_singleton, Decision.event?_eq_some]
    · intro event h
      rw [calls.decisions, List.mem_singleton] at h
      exact calls.generation event (Decision.event?_eq_some.2 h)

end Dispatch

end PrinterMotion
