/-
Calls on a dispatch, and all that a call can do: nothing but clocks and endpoints changes, a generation
begins, a generation fails to begin, or the one under way is ended by a decision. Each call belongs to
the generation it leaves, and what it hands over is timeouts first and triggers behind them.
-/
import PrinterMotion.Proofs.Trsync.Ending

namespace PrinterMotion

variable {α : Type}

namespace Dispatch

/-! ## Calls and events -/

/-- A call on a dispatch, or the loss of all its links. -/
inductive Call (α : Type) where
  | register (link : Link) (queue oid : UInt32) (tags : TrsyncTags)
  | setup (place : Nat) (window : ClockWindow) (clock : ClockEstimate α)
  | updateClock (place : Nat) (clock : ClockEstimate α)
  | start (reason : Reason)
  | batch (updates : List StatusUpdate)
  | status (update : StatusUpdate)
  | stop
  | closeLinks

variable [Scalar α]

/-- Makes a call: the dispatch after it, the commands it handed over, and the decisions its answer
tells of. -/
def call (d : Dispatch α) : Call α → Dispatch α × List Post × List (Decision α)
  | .register link queue oid tags => ((d.register link queue oid tags).1, [], [])
  | .setup place window clock => ((d.setup place window clock).1, [], [])
  | .updateClock place clock => ((d.updateClock place clock).1, [], [])
  | .start reason => ((d.start reason).1, (d.start reason).2.1, [])
  | .batch us => ((d.batch us).1, (d.batch us).2.1, answerDecisions (d.batch us).2.2)
  | .status u => ((d.status u).1, (d.status u).2.1, answerDecisions ((d.status u).2.2.map ([·])))
  | .stop => (d.stop.1, d.stop.2.1, stopDecisions d.stop.2.2)
  | .closeLinks => (d.closeLinks, [], [])

/-- A call with the dispatch that it found. -/
structure Event (α : Type) where
  before : Dispatch α
  call : Call α

namespace Event

/-- The dispatch that the call left. -/
def after (e : Event α) : Dispatch α := (e.before.call e.call).1

/-- All commands that the call handed over. -/
def posts (e : Event α) : List Post := (e.before.call e.call).2.1

/-- The decisions that its answer tells of. -/
def decisions (e : Event α) : List (Decision α) := (e.before.call e.call).2.2

/-- For a call that armed all endpoints, how many there are and the reason it gave. -/
def armed? (e : Event α) : Option (Nat × Reason) :=
  match e.call with
  | .start reason =>
    match (e.before.start reason).2.2 with
    | .ok _ => some (e.before.endpoints.length, reason)
    | .error _ => none
  | _ => none

/-- The timeout commands among the posts. A start hands them over before any trigger, and a call that
takes a decision hands over none. -/
def timeouts (e : Event α) : List Post :=
  match e.call with
  | .start _ => e.posts.take (arm 0 e.before.endpoints).2.1.length
  | _ => if e.decisions.isEmpty then e.posts else []

/-- The trigger commands among the posts. -/
def triggers (e : Event α) : List Post := e.posts.drop e.timeouts.length

theorem posts_eq (e : Event α) : e.posts = e.timeouts ++ e.triggers := by
  unfold triggers timeouts
  split
  · rw [List.length_take]
    rcases Nat.le_total (arm 0 e.before.endpoints).2.1.length e.posts.length with h | h
    · rw [Nat.min_eq_left h, List.take_append_drop]
    · rw [Nat.min_eq_right h, List.take_of_length_le h, List.drop_length, List.append_nil]
  · split <;> simp

/-! ## What a call can do -/

/-- A call that leaves the generation as it is. Endpoints are added only to an idle dispatch, and
timeouts are sent only by an active one. -/
structure Quiet (e : Event α) : Prop where
  active : e.after.active = e.before.active
  reason : e.after.reason = e.before.reason
  generation : e.after.generation = e.before.generation
  trigger : e.after.trigger = e.before.trigger
  endpoints : ∃ new, e.after.endpoints.map Endpoint.standing = e.before.endpoints.map Endpoint.standing ++ new ∧
    (e.before.active = true → new = [])
  armed : e.armed? = none
  decisions : e.decisions = []
  triggers : e.triggers = []
  timeouts : e.timeouts ≠ [] → e.before.active = true
  isTimeout : ∀ p ∈ e.timeouts, ∃ ep, e.before.endpoints[p.endpoint]? = some ep ∧ ep.IsTimeout p.command

/-- A call on an idle dispatch that begins a generation, and what it tells if it fails. -/
structure Begins (e : Event α) : Prop where
  start : ∃ reason, e.call = .start reason
  idle : e.before.active = false
  generation : e.after.generation = e.before.generation + 1
  trigger : e.after.trigger = none
  address : e.after.endpoints.map Endpoint.address = e.before.endpoints.map Endpoint.address
  decisions : e.decisions = []
  isTimeout : ∀ p ∈ e.timeouts, ∃ ep, e.before.endpoints[p.endpoint]? = some ep ∧ ep.IsTimeout p.command
  isTrigger : ∀ p ∈ e.triggers, ∃ ep, e.before.endpoints[p.endpoint]? = some ep ∧ ep.IsTrigger p.command
  outcome : (e.after.active = true ∧ e.armed? = some (e.after.endpoints.length, e.after.reason) ∧
      e.triggers = [] ∧ ∀ ep ∈ e.after.endpoints, ep.notified = false) ∨
    (e.after.active = false ∧ e.armed? = none ∧ ∀ k, (handed k e.triggers).length ≤ 1)

/-- A call on an active dispatch that ends its generation by a decision. -/
structure Decides (e : Event α) (decision : Decision α) : Prop where
  ends : Ends e.before e.triggers decision e.after
  armed : e.armed? = none
  decisions : e.decisions = [decision]
  timeouts : e.timeouts = []

/-- A call other than a start that takes no decision hands over timeouts, and one that takes a decision
hands over triggers. -/
theorem triggers_of_not_start {e : Event α} (h : ∀ r, e.call ≠ .start r) :
    e.timeouts = (if e.decisions.isEmpty then e.posts else []) ∧
      e.triggers = (if e.decisions.isEmpty then [] else e.posts) ∧ e.armed? = none := by
  have ht : e.timeouts = if e.decisions.isEmpty then e.posts else [] := by
    unfold timeouts
    split
    · rename_i r hr
      exact absurd hr (h r)
    · rfl
  refine ⟨ht, ?_, ?_⟩
  · unfold triggers
    rw [ht]
    split <;> simp
  · unfold armed?
    split
    · rename_i r hr
      exact absurd hr (h r)
    · rfl

theorem quiet_of_extends {e : Event α} (hc : ∀ r, e.call ≠ .start r) (hd : e.decisions = [])
    (h : Extends e.before e.posts e.after) (ha : e.posts ≠ [] → e.before.active = true) : e.Quiet := by
  obtain ⟨ht, htr, harm⟩ := triggers_of_not_start hc
  rw [hd] at ht htr
  refine ⟨h.kept.active, h.kept.reason, h.kept.generation, h.kept.trigger, ⟨[], ?_, fun _ => rfl⟩, harm, hd,
    htr, ?_, ?_⟩
  · rw [List.append_nil]; exact h.kept.endpoints
  · rw [ht]; exact ha
  · rw [ht]; exact h.timeouts

theorem decides_of_ends {e : Event α} {decision : Decision α} (hc : ∀ r, e.call ≠ .start r)
    (hd : e.decisions = [decision]) (h : Ends e.before e.posts decision e.after) : e.Decides decision := by
  obtain ⟨ht, htr, harm⟩ := triggers_of_not_start hc
  rw [hd] at ht htr
  exact ⟨by rw [htr]; exact h, harm, hd, ht⟩

/-- A call that hands over nothing and changes at most links and clocks is quiet. -/
theorem quiet_of_kept {e : Event α} (hc : ∀ r, e.call ≠ .start r) (hd : e.decisions = []) (hp : e.posts = [])
    (h : Kept e.before e.after) : e.Quiet :=
  quiet_of_extends hc hd (hp ▸ ⟨h, by simp⟩) fun hne => absurd hp hne

theorem register_quiet (d : Dispatch α) (link : Link) (queue oid : UInt32) (tags : TrsyncTags) :
    Quiet ⟨d, .register link queue oid tags⟩ := by
  by_cases hb : d.broken = true
  · refine quiet_of_kept (by simp) rfl rfl ?_
    simp only [after, Dispatch.call, register, if_pos hb]
    exact Kept.refl d
  by_cases ha : d.active = true
  · refine quiet_of_kept (by simp) rfl rfl ?_
    simp only [after, Dispatch.call, register, if_neg hb, if_pos ha]
    exact Kept.refl d
  have hafter : after ⟨d, .register link queue oid tags⟩ = { d with
      endpoints := d.endpoints ++ [⟨queue, oid, tags, link, ⟨0, 0, 0, 0⟩, ClockEstimate.ofFrequency 1.0, false⟩] } := by
    simp only [after, Dispatch.call, register, if_neg hb, if_neg ha]
  refine ⟨?_, ?_, ?_, ?_, ?_, rfl, rfl, rfl, ?_, ?_⟩
  · rw [hafter]
  · rw [hafter]
  · rw [hafter]
  · rw [hafter]
  · rw [hafter]
    exact ⟨_, List.map_append, fun h => absurd h ha⟩
  · intro h; exact absurd rfl h
  · intro p hp; cases hp

theorem setup_quiet (d : Dispatch α) (place : Nat) (window : ClockWindow) (clock : ClockEstimate α) :
    Quiet ⟨d, .setup place window clock⟩ := by
  refine quiet_of_kept (by simp) rfl rfl ?_
  simp only [after, Dispatch.call, setup]
  split
  · exact Kept.refl d
  split
  · exact Kept.refl d
  · exact kept_modify d place fun ep => ep.standing_setup window clock

theorem updateClock_quiet (d : Dispatch α) (place : Nat) (clock : ClockEstimate α) :
    Quiet ⟨d, .updateClock place clock⟩ := by
  refine quiet_of_kept (by simp) rfl rfl ?_
  simp only [after, Dispatch.call, updateClock]
  split
  · exact Kept.refl d
  · exact kept_modify d place fun ep => ep.standing_updateClock clock

theorem closeLinks_quiet (d : Dispatch α) : Quiet ⟨d, .closeLinks⟩ := by
  refine quiet_of_kept (by simp) rfl rfl ⟨rfl, rfl, rfl, rfl, rfl, ?_⟩
  simp [after, Dispatch.call, closeLinks, Function.comp_def, Endpoint.standing, Endpoint.address]

/-- A start that gets as far as arming hands over what arming does first. -/
theorem split_of_start {d : Dispatch α} {reason : Reason} {told : List Post}
    (h : posts ⟨d, .start reason⟩ = (arm 0 d.endpoints).2.1 ++ told) :
    timeouts ⟨d, .start reason⟩ = (arm 0 d.endpoints).2.1 ∧ triggers ⟨d, .start reason⟩ = told := by
  have ht : timeouts ⟨d, .start reason⟩ = (arm 0 d.endpoints).2.1 := by
    simp only [timeouts, h, List.take_left']
  refine ⟨ht, ?_⟩
  rw [triggers, ht, h, List.drop_left]

theorem start_cases (d : Dispatch α) (reason : Reason) :
    Quiet ⟨d, .start reason⟩ ∨ Begins ⟨d, .start reason⟩ := by
  have haddr := arm_address 0 d.endpoints
  obtain ⟨r, h⟩ : ∃ r, d.start reason = r := ⟨_, rfl⟩
  cases h ▸ d.started_start reason with
  | refused error =>
    left
    have hp : posts ⟨d, .start reason⟩ = [] := by simp only [posts, Dispatch.call, h]
    have ht : timeouts ⟨d, .start reason⟩ = [] := by simp only [timeouts, hp, List.take_nil]
    have ha : after ⟨d, .start reason⟩ = d := by simp only [after, Dispatch.call, h]
    refine ⟨?_, ?_, ?_, ?_, ⟨[], ?_, fun _ => rfl⟩, ?_, rfl, ?_, ?_, ?_⟩
    all_goals first | rw [ha] | simp only [armed?, h, triggers, ht, hp]
    all_goals simp
  | armed _ hidle hf =>
    right
    obtain ⟨ht, htr⟩ := split_of_start (show posts ⟨d, .start reason⟩ = (arm 0 d.endpoints).2.1 ++ [] by
      simp only [posts, Dispatch.call, h, List.append_nil])
    have hafter : after ⟨d, .start reason⟩ = d.restarted reason := by simp only [after, Dispatch.call, h]
    refine ⟨⟨reason, rfl⟩, hidle, ?_, ?_, ?_, rfl, by rw [ht]; exact fun _ => isTimeout_of_mem_arm, by simp [htr],
      .inl ⟨?_, ?_, htr, ?_⟩⟩
    · rw [hafter]; rfl
    · rw [hafter]; rfl
    · rw [hafter]; exact haddr
    · rw [hafter]; rfl
    · simp only [armed?, h, hafter, restarted, arm_length]
    · rw [hafter]; exact arm_notified 0 d.endpoints hf
  | unreachable oid hidle =>
    right
    obtain ⟨ht, htr⟩ := split_of_start (show posts ⟨d, .start reason⟩ = (arm 0 d.endpoints).2.1 ++
      ((d.restarted reason).halt.broadcast Reason.hostRequest).2 by simp only [posts, Dispatch.call, h])
    have hafter : after ⟨d, .start reason⟩ = ((d.restarted reason).halt.broadcast Reason.hostRequest).1 := by
      simp only [after, Dispatch.call, h]
    refine ⟨⟨reason, rfl⟩, hidle, ?_, ?_, ?_, rfl, by rw [ht]; exact fun _ => isTimeout_of_mem_arm, fun p hp => ?_,
      .inr ⟨?_, ?_, fun k => ?_⟩⟩
    · rw [hafter]; rfl
    · rw [hafter]; rfl
    · rw [hafter, broadcast_address]; exact haddr
    · rw [htr] at hp
      obtain ⟨ep, hep, hc⟩ := broadcast_isTrigger _ _ p hp
      obtain ⟨ep', hep', hae⟩ := exists_part_eq haddr.symm hep
      exact ⟨ep', hep', Endpoint.isTrigger_of_address hae.symm hc⟩
    · rw [hafter]; rfl
    · simp only [armed?, h]
    · rw [htr, handed_broadcast]
      cases (d.restarted reason).halt.endpoints[k]? with
      | none => simp
      | some ep => exact Endpoint.untold_length_le _ ep

/-- Every call leaves the generation as it is, begins one, or ends the one under way. -/
theorem cases (e : Event α) : e.Quiet ∨ e.Begins ∨ ∃ decision, e.Decides decision := by
  obtain ⟨d, c⟩ := e
  cases c with
  | register link queue oid tags => exact .inl (register_quiet d link queue oid tags)
  | setup place window clock => exact .inl (setup_quiet d place window clock)
  | updateClock place clock => exact .inl (updateClock_quiet d place clock)
  | closeLinks => exact .inl (closeLinks_quiet d)
  | start reason => exact (start_cases d reason).imp_right .inl
  | batch us =>
    obtain ⟨hx, hd, ha⟩ | ⟨decision, he, hd⟩ := batch_cases d us
    · exact .inl (quiet_of_extends (by simp) hd hx ha)
    · exact .inr (.inr ⟨decision, decides_of_ends (by simp) hd he⟩)
  | status u =>
    -- the one outcome is what the batch of the report alone is answered
    have hans : decisions ⟨d, .status u⟩ = answerDecisions (d.batch [u]).2.2 := by
      show answerDecisions (((d.batch [u]).2.2.map fun os => os.headD .ignored).map ([·])) = _
      cases h : (d.batch [u]).2.2 with
      | error e => rfl
      | ok os =>
        obtain ⟨o, rfl⟩ := List.length_eq_one_iff.1 (batch_length h)
        rfl
    obtain ⟨hx, hd, ha⟩ | ⟨decision, he, hd⟩ := batch_cases d [u]
    · exact .inl (quiet_of_extends (by simp) (hans.trans hd) hx ha)
    · exact .inr (.inr ⟨decision, decides_of_ends (by simp) (hans.trans hd) he⟩)
  | stop =>
    by_cases hb : d.broken = true
    · have h : d.stop = (d, [], .error .broken) := by rw [stop, if_pos hb]
      refine .inl (quiet_of_kept (by simp) ?_ ?_ ?_)
      · simp only [decisions, Dispatch.call, h]; rfl
      · simp only [posts, Dispatch.call, h]
      · simp only [after, Dispatch.call, h]; exact Kept.refl d
    by_cases ha : d.active = true
    · have h : d.stop = ((d.halt.broadcast Reason.hostRequest).1, (d.halt.broadcast Reason.hostRequest).2,
          .ok true) := by rw [stop, if_neg hb, if_pos ha]
      refine .inr (.inr ⟨.stopped, decides_of_ends (by simp) ?_ ?_⟩)
      · simp only [decisions, Dispatch.call, h]; rfl
      · simp only [posts, after, Dispatch.call, h]
        have hnone : (Decision.stopped : Decision α).event? = none := rfl
        exact ends_of_broadcast ha hnone
    · have h : d.stop = (d, [], .ok false) := by rw [stop, if_neg hb, if_neg ha]
      refine .inl (quiet_of_kept (by simp) ?_ ?_ ?_)
      · simp only [decisions, Dispatch.call, h]; rfl
      · simp only [posts, Dispatch.call, h]
      · simp only [after, Dispatch.call, h]; exact Kept.refl d

end Event

end Dispatch

end PrinterMotion
