/-
What the operations of a dispatch hand to its endpoints. Telling hands one trigger command to each
endpoint that was not told yet, arming and extending hand over timeout commands only, and noting reports
hands over nothing. None of them changes what an endpoint is addressed by, and only telling and arming
change who has been told. A start is refused, or it arms all endpoints, or it tells all of them to stop.
-/
import PrinterMotion.Trsync.Batch
import Mathlib.Tactic

namespace PrinterMotion

variable {α : Type}

/-! ## Commands by endpoint -/

/-- The commands among posts that went to the endpoint at a place. -/
def handed (place : Nat) (posts : List Post) : List Command :=
  (posts.filter fun p => p.endpoint = place).map Post.command

@[simp] theorem handed_nil (k : Nat) : handed k [] = [] := rfl

@[simp] theorem handed_append (k : Nat) (ps qs : List Post) :
    handed k (ps ++ qs) = handed k ps ++ handed k qs := by
  simp [handed]

theorem handed_cons (k : Nat) (p : Post) (ps : List Post) :
    handed k (p :: ps) = if p.endpoint = k then p.command :: handed k ps else handed k ps := by
  by_cases h : p.endpoint = k <;> simp [handed, h]

namespace Endpoint

/-- What the commands to an endpoint are addressed by. -/
def address (ep : Endpoint α) : UInt32 × UInt32 × TrsyncTags := (ep.queue, ep.oid, ep.tags)

/-- The address, and whether the endpoint has been told to stop. -/
def standing (ep : Endpoint α) : (UInt32 × UInt32 × TrsyncTags) × Bool := (ep.address, ep.notified)

/-- A command that moves the expire clock. -/
def IsTimeout (ep : Endpoint α) (c : Command) : Prop :=
  c.fields = [ep.tags.setTimeout, ep.oid, Clock.low c.reqClock]

/-- A command to stop. -/
def IsTrigger (ep : Endpoint α) (c : Command) : Prop := ∃ reason, c = ep.triggerCommand reason

theorem triggerCommand_of_address {a b : Endpoint α} (h : a.address = b.address) (r : Reason) :
    a.triggerCommand r = b.triggerCommand r := by
  simp only [address, Prod.mk.injEq] at h
  simp [triggerCommand, h]

theorem isTimeout_of_address {a b : Endpoint α} (h : a.address = b.address) {c : Command}
    (hc : a.IsTimeout c) : b.IsTimeout c := by
  simp only [address, Prod.mk.injEq] at h
  simpa [IsTimeout, h] using hc

theorem isTrigger_of_address {a b : Endpoint α} (h : a.address = b.address) {c : Command}
    (hc : a.IsTrigger c) : b.IsTrigger c := by
  obtain ⟨r, rfl⟩ := hc
  exact ⟨r, triggerCommand_of_address h r⟩

/-- What an endpoint is handed when all are told to stop. -/
def untold (reason : Reason) (ep : Endpoint α) : List Command :=
  if ep.notified then [] else [ep.triggerCommand reason]

theorem untold_of_standing {a b : Endpoint α} (h : a.standing = b.standing) (r : Reason) :
    a.untold r = b.untold r := by
  simp only [standing, Prod.mk.injEq] at h
  unfold untold
  rw [h.2, triggerCommand_of_address h.1]

theorem untold_length_le (r : Reason) (ep : Endpoint α) : (ep.untold r).length ≤ 1 := by
  unfold untold; split <;> simp

theorem isTimeout_timeoutCommand (ep : Endpoint α) : ep.IsTimeout ep.timeoutCommand := rfl

@[simp] theorem standing_setup (ep : Endpoint α) (w : ClockWindow) (ce : ClockEstimate α) :
    (ep.setup w ce).standing = ep.standing := rfl

@[simp] theorem standing_updateClock (ep : Endpoint α) (ce : ClockEstimate α) :
    (ep.updateClock ce).standing = ep.standing := rfl

@[simp] theorem standing_note [Scalar α] (ep : Endpoint α) (r : StatusReport) :
    (ep.note r).1.standing = ep.standing := by
  unfold note; simp only; split <;> rfl

theorem standing_extend? {ep ep' : Endpoint α} {clock : UInt64}
    (h : ep.extend? clock = some ep') : ep'.standing = ep.standing := by
  unfold extend? at h
  obtain ⟨_, _, rfl⟩ := Option.map_eq_some_iff.1 h
  rfl

end Endpoint

/-- Endpoints that agree in a part, such as their addresses, are at the same places. -/
theorem exists_part_eq {β : Type} {part : Endpoint α → β} {as bs : List (Endpoint α)}
    (h : bs.map part = as.map part) {k : Nat} {a : Endpoint α} (ha : as[k]? = some a) :
    ∃ b, bs[k]? = some b ∧ part b = part a := by
  have hk : (bs.map part)[k]? = (as.map part)[k]? := by rw [h]
  simpa [ha] using hk

namespace Dispatch

/-! ## Telling -/

theorem tell_cons (reason : Reason) (place : Nat) (ep : Endpoint α) (rest : List (Endpoint α)) :
    tell reason place (ep :: rest) =
      if ep.notified then
        (ep :: (tell reason (place + 1) rest).1, (tell reason (place + 1) rest).2)
      else
        ((ep.sendTrigger place reason).1 :: (tell reason (place + 1) rest).1,
          (ep.sendTrigger place reason).2 :: (tell reason (place + 1) rest).2) := by
  rw [tell]

theorem tell_address (reason : Reason) : ∀ (place : Nat) (eps : List (Endpoint α)),
    (tell reason place eps).1.map Endpoint.address = eps.map Endpoint.address
  | _, [] => rfl
  | place, ep :: rest => by
    have ih := tell_address reason (place + 1) rest
    rw [tell_cons]
    split
    · simp [ih]
    · rw [List.map_cons, ih]; rfl

theorem handed_tell_of_lt (reason : Reason) : ∀ (eps : List (Endpoint α)) (place k : Nat), k < place →
    handed k (tell reason place eps).2 = []
  | [], _, _, _ => rfl
  | ep :: rest, place, k, h => by
    have ih := handed_tell_of_lt reason rest (place + 1) k (by omega)
    rw [tell_cons]
    split
    · exact ih
    · rw [handed_cons, if_neg (by simp only [Endpoint.sendTrigger, Endpoint.hand]; omega), ih]

/-- Each endpoint that was not told yet is handed one trigger command, all others nothing. -/
theorem handed_tell (reason : Reason) : ∀ (eps : List (Endpoint α)) (place k : Nat),
    handed (place + k) (tell reason place eps).2 = (eps[k]?.map (Endpoint.untold reason)).getD []
  | [], _, _ => rfl
  | ep :: rest, place, 0 => by
    have h0 := handed_tell_of_lt reason rest (place + 1) place (by omega)
    rw [tell_cons]
    by_cases hn : ep.notified
    · simp [hn, h0, Endpoint.untold]
    · simp [hn, handed_cons, h0, Endpoint.untold, Endpoint.sendTrigger, Endpoint.hand,
        Endpoint.triggerCommand]
  | ep :: rest, place, k + 1 => by
    have ih := handed_tell reason rest (place + 1) k
    rw [show place + 1 + k = place + (k + 1) by omega] at ih
    rw [tell_cons]
    by_cases hn : ep.notified
    · simpa [hn] using ih
    · simpa [hn, handed_cons, Endpoint.sendTrigger, Endpoint.hand] using ih

theorem tell_isTrigger (reason : Reason) : ∀ (eps : List (Endpoint α)) (place : Nat),
    ∀ p ∈ (tell reason place eps).2, ∃ k ep, p.endpoint = place + k ∧ eps[k]? = some ep ∧
      ep.IsTrigger p.command
  | [], _, _, h => by cases h
  | ep :: rest, place, p, h => by
    have later : p ∈ (tell reason (place + 1) rest).2 →
        ∃ k e, p.endpoint = place + k ∧ (ep :: rest)[k]? = some e ∧ e.IsTrigger p.command := by
      intro hp
      obtain ⟨k, e, hk, he, hc⟩ := tell_isTrigger reason rest (place + 1) p hp
      exact ⟨k + 1, e, by omega, by simpa using he, hc⟩
    rw [tell_cons] at h
    split at h
    · exact later h
    · rcases List.mem_cons.1 h with rfl | h
      · exact ⟨0, ep, rfl, rfl, reason, rfl⟩
      · exact later h

/-! ## Arming -/

theorem arm_address : ∀ (place : Nat) (eps : List (Endpoint α)),
    (arm place eps).1.map Endpoint.address = eps.map Endpoint.address
  | _, [] => rfl
  | place, ep :: rest => by
    have ih := arm_address (place + 1) rest
    simp only [arm]
    split <;> simp [ih] <;> rfl

/-- Endpoints that could all be reached have not been told anything yet. -/
theorem arm_notified : ∀ (place : Nat) (eps : List (Endpoint α)), (arm place eps).2.2 = none →
    ∀ ep ∈ (arm place eps).1, ep.notified = false
  | _, [], _, _, h => by cases h
  | place, ep :: rest, hn, e, he => by
    simp only [arm] at hn he
    split at he
    · rename_i hacc
      rw [if_pos hacc] at hn
      rcases List.mem_cons.1 he with rfl | he
      · rfl
      · exact arm_notified (place + 1) rest hn e he
    · rename_i hacc
      rw [if_neg hacc] at hn
      cases hn

theorem arm_isTimeout : ∀ (place : Nat) (eps : List (Endpoint α)),
    ∀ p ∈ (arm place eps).2.1, ∃ k ep, p.endpoint = place + k ∧ eps[k]? = some ep ∧ ep.IsTimeout p.command
  | _, [], _, h => by cases h
  | place, ep :: rest, p, h => by
    simp only [arm] at h
    split at h
    · rcases List.mem_cons.1 h with rfl | h
      · exact ⟨0, ep, rfl, rfl, rfl⟩
      · obtain ⟨k, e, hk, he, hc⟩ := arm_isTimeout (place + 1) rest p h
        exact ⟨k + 1, e, by omega, by simpa using he, hc⟩
    · rw [List.mem_singleton] at h
      subst h
      exact ⟨0, ep, rfl, rfl, rfl⟩

theorem arm_length (place : Nat) (eps : List (Endpoint α)) : (arm place eps).1.length = eps.length := by
  simpa using congrArg List.length (arm_address place eps)

/-- Arming all endpoints hands over commands that move their expire clocks. -/
theorem isTimeout_of_mem_arm {eps : List (Endpoint α)} {p : Post} (hp : p ∈ (arm 0 eps).2.1) :
    ∃ ep, eps[p.endpoint]? = some ep ∧ ep.IsTimeout p.command := by
  obtain ⟨k, ep, hk, hep, hc⟩ := arm_isTimeout 0 eps p hp
  rw [Nat.zero_add] at hk
  exact ⟨ep, hk ▸ hep, hc⟩

/-- Endpoints whose links accept everything are all reached. -/
theorem arm_of_intact : ∀ (place : Nat) (eps : List (Endpoint α)), (∀ ep ∈ eps, ep.link = .intact) →
    (arm place eps).2.2 = none
  | _, [], _ => rfl
  | place, ep :: rest, h => by
    obtain ⟨hep, hrest⟩ := List.forall_mem_cons.1 h
    have hpost : ({ ep with notified := false }.sendTimeout place).2.accepted = true := by
      simp [Endpoint.sendTimeout, Endpoint.hand, hep, Link.offer, Link.intact]
    simp only [arm, hpost, if_true]
    exact arm_of_intact (place + 1) rest hrest

/-! ## Starting -/

/-- The dispatch of a generation whose endpoints are armed. -/
def restarted (d : Dispatch α) (reason : Reason) : Dispatch α :=
  { d with
    active := true, canTrigger := true, reason, generation := d.generation + 1
    endpoints := (arm 0 d.endpoints).1, trigger := none }

/-- What a start comes to. It is refused, or all endpoints are armed, or one of them cannot be reached: then all
are told to stop. -/
inductive Started (d : Dispatch α) (reason : Reason) :
    Dispatch α × List Post × Except DispatchError Unit → Prop where
  | refused (error : DispatchError) (h : d.broken = true ∨ d.active = true ∨ d.endpoints = []) :
      Started d reason (d, [], .error error)
  | armed (intact : d.broken = false) (idle : d.active = false) (reached : (arm 0 d.endpoints).2.2 = none) :
      Started d reason (d.restarted reason, (arm 0 d.endpoints).2.1, .ok ())
  | unreachable (oid : UInt32) (idle : d.active = false) :
      Started d reason (((d.restarted reason).halt.broadcast Reason.hostRequest).1,
        (arm 0 d.endpoints).2.1 ++ ((d.restarted reason).halt.broadcast Reason.hostRequest).2,
        .error (.unreachable oid))

theorem started_start (d : Dispatch α) (reason : Reason) : Started d reason (d.start reason) := by
  by_cases hb : d.broken = true
  · rw [start, if_pos hb]
    exact .refused .broken (.inl hb)
  by_cases ha : d.active = true
  · rw [start, if_neg hb, if_pos ha]
    exact .refused .alreadyActive (.inr (.inl ha))
  by_cases he : d.endpoints.isEmpty = true
  · rw [start, if_neg hb, if_neg ha, if_pos he]
    exact .refused .noEndpoints (.inr (.inr (List.isEmpty_iff.1 he)))
  rw [start, if_neg hb, if_neg ha, if_neg he]
  rw [Bool.not_eq_true] at hb ha
  cases hf : (arm 0 d.endpoints).2.2 with
  | none =>
    simp only [hf]
    exact .armed hb ha hf
  | some oid =>
    simp only [hf]
    exact .unreachable oid ha

/-- A dispatch that is idle and can reach all of its endpoints starts. -/
theorem start_ok {d : Dispatch α} (reason : Reason) (hb : d.broken = false) (hidle : d.active = false)
    (hne : d.endpoints ≠ []) (harm : (arm 0 d.endpoints).2.2 = none) : (d.start reason).2.2 = .ok () := by
  rw [start, if_neg (by simp [hb]), if_neg (by simp [hidle]), if_neg (by simpa using hne)]
  simp only [harm]

theorem start_eq_ok {d : Dispatch α} {reason : Reason} (h : (d.start reason).2.2 = .ok ()) :
    d.start reason = (d.restarted reason, (arm 0 d.endpoints).2.1, .ok ()) ∧ d.broken = false ∧
      (arm 0 d.endpoints).2.2 = none := by
  generalize hs : d.start reason = r at h ⊢
  cases hs ▸ d.started_start reason with
  | refused error => cases h
  | armed intact _ reached => exact ⟨rfl, intact, reached⟩
  | unreachable oid => cases h

/-! ## What noting and extending keep -/

/-- Between two states of one generation nothing but clocks and links has changed. -/
structure Kept (d d' : Dispatch α) : Prop where
  active : d'.active = d.active
  canTrigger : d'.canTrigger = d.canTrigger
  reason : d'.reason = d.reason
  generation : d'.generation = d.generation
  trigger : d'.trigger = d.trigger
  endpoints : d'.endpoints.map Endpoint.standing = d.endpoints.map Endpoint.standing

theorem Kept.refl (d : Dispatch α) : Kept d d := ⟨rfl, rfl, rfl, rfl, rfl, rfl⟩

theorem Kept.trans {a b c : Dispatch α} (h : Kept a b) (h' : Kept b c) : Kept a c :=
  ⟨h'.active.trans h.active, h'.canTrigger.trans h.canTrigger, h'.reason.trans h.reason,
    h'.generation.trans h.generation, h'.trigger.trans h.trigger, h'.endpoints.trans h.endpoints⟩

theorem Kept.length {d d' : Dispatch α} (h : Kept d d') : d'.endpoints.length = d.endpoints.length := by
  simpa using congrArg List.length h.endpoints

theorem kept_set {d : Dispatch α} {place : Nat} {ep ep' : Endpoint α} (hep : d.endpoints[place]? = some ep)
    (h : ep'.standing = ep.standing) : Kept d { d with endpoints := d.endpoints.set place ep' } := by
  refine ⟨rfl, rfl, rfl, rfl, rfl, ?_⟩
  apply List.ext_getElem?
  intro k
  simp only [List.getElem?_map, List.getElem?_set]
  by_cases hk : place = k
  · subst hk
    have hlt : place < d.endpoints.length := (List.getElem?_eq_some_iff.1 hep).1
    rw [if_pos rfl, if_pos hlt, hep, Option.map_some, Option.map_some, h]
  · rw [if_neg hk]

theorem kept_modify (d : Dispatch α) (place : Nat) {f : Endpoint α → Endpoint α}
    (h : ∀ ep, (f ep).standing = ep.standing) : Kept d { d with endpoints := d.endpoints.modify place f } := by
  refine ⟨rfl, rfl, rfl, rfl, rfl, ?_⟩
  apply List.ext_getElem?
  intro k
  simp only [List.getElem?_map, List.getElem?_modify]
  cases d.endpoints[k]? with
  | none => rfl
  | some ep => by_cases hk : place = k <;> simp [hk, h]

section

variable [Scalar α]

/-- A report is nothing to the dispatch, or what it is to the endpoint at its place. -/
theorem note_cases (d : Dispatch α) (u : StatusUpdate) : d.note u = (d, .nothing) ∨
    ∃ place ep, u.place = some place ∧ d.endpoints[place]? = some ep ∧
      d.note u = ({ d with endpoints := d.endpoints.set place (ep.note u.report).1 }, (ep.note u.report).2) := by
  unfold note
  split
  · exact .inl rfl
  · rename_i place ep h
    obtain ⟨p, hp, h⟩ := Option.bind_eq_some_iff.1 h
    obtain ⟨e, he, h⟩ := Option.map_eq_some_iff.1 h
    cases h
    split
    · exact .inr ⟨place, ep, hp, he, rfl⟩
    · exact .inl rfl

theorem note_kept (d : Dispatch α) (u : StatusUpdate) : Kept d (d.note u).1 := by
  rcases d.note_cases u with heq | ⟨place, ep, -, hep, heq⟩ <;> rw [heq]
  · exact Kept.refl d
  · exact kept_set hep (Endpoint.standing_note ep u.report)

theorem noteAll_kept : ∀ (us : List StatusUpdate) (d : Dispatch α), Kept d (d.noteAll us).1
  | [], d => Kept.refl d
  | u :: us, d => (note_kept d u).trans (noteAll_kept us _)

theorem noteAll_length : ∀ (us : List StatusUpdate) (d : Dispatch α), (d.noteAll us).2.length = us.length
  | [], _ => rfl
  | u :: us, d => congrArg Nat.succ (noteAll_length us (d.note u).1)

/-- A dispatch that is not armed finds nothing in a report. -/
theorem note_idle {d : Dispatch α} (h : (d.active && d.canTrigger) = false) (u : StatusUpdate) :
    d.note u = (d, .nothing) := by
  unfold note
  split
  · rfl
  · rw [h]; rfl

theorem noteAll_idle {d : Dispatch α} (h : (d.active && d.canTrigger) = false) :
    ∀ us : List StatusUpdate, d.noteAll us = (d, us.map fun _ => .nothing)
  | [] => rfl
  | u :: us => by
    rw [noteAll, note_idle h u]
    simp only [noteAll_idle h us, List.map_cons]

end

/-! ## Extending -/

/-- Extending hands over timeout commands, takes no decision, and can fail only by the range of the
counter. -/
structure Extends (d : Dispatch α) (posts : List Post) (d' : Dispatch α) : Prop where
  kept : Kept d d'
  timeouts : ∀ p ∈ posts, ∃ ep, d.endpoints[p.endpoint]? = some ep ∧ ep.IsTimeout p.command

theorem Extends.trans {a b c : Dispatch α} {ps qs : List Post} (h : Extends a ps b) (h' : Extends b qs c) :
    Extends a (ps ++ qs) c := by
  refine ⟨h.kept.trans h'.kept, fun p hp => ?_⟩
  rcases List.mem_append.1 hp with hp | hp
  · exact h.timeouts p hp
  · obtain ⟨ep, he, hc⟩ := h'.timeouts p hp
    obtain ⟨e, hee, hs⟩ := exists_part_eq h.kept.endpoints.symm he
    exact ⟨e, hee, Endpoint.isTimeout_of_address (congrArg Prod.fst hs).symm hc⟩

theorem extends_refl (d : Dispatch α) : Extends d [] d := ⟨Kept.refl d, by simp⟩

/-- Nothing is extended, or the sum does not fit the counter, or the endpoint is sent its new expire clock. -/
theorem extendOne_cases (d : Dispatch α) (place : Nat) (clock : UInt64) :
    d.extendOne place clock = (d, [], .ok .recorded) ∨
    d.extendOne place clock = ({ d with broken := true }, [], .error .clockOverflow) ∨
    ∃ ep ep', d.endpoints[place]? = some ep ∧ ep.extend? clock = some ep' ∧
      d.extendOne place clock = ({ d with endpoints := d.endpoints.set place (ep'.sendTimeout place).1 },
        [(ep'.sendTimeout place).2], .ok (.extended (ep'.sendTimeout place).1.window.expire)) := by
  unfold extendOne
  split
  · exact .inl rfl
  rename_i ep hep
  split
  · exact .inr (.inl rfl)
  · exact .inl rfl
  split
  · exact .inr (.inl rfl)
  · rename_i ep' hext
    exact .inr (.inr ⟨ep, ep', hep, hext, rfl⟩)

theorem extendOne_extends (d : Dispatch α) (place : Nat) (clock : UInt64) :
    Extends d (d.extendOne place clock).2.1 (d.extendOne place clock).1 := by
  rcases d.extendOne_cases place clock with heq | heq | ⟨ep, ep', hep, hext, heq⟩ <;> rw [heq]
  · exact extends_refl d
  · exact ⟨⟨rfl, rfl, rfl, rfl, rfl, rfl⟩, by simp⟩
  · have hs := Endpoint.standing_extend? hext
    have hsent : (ep'.sendTimeout place).1.standing = ep.standing := hs
    refine ⟨kept_set hep hsent, fun p hp => ?_⟩
    rw [List.mem_singleton] at hp
    subst hp
    exact ⟨ep, hep, Endpoint.isTimeout_of_address (congrArg Prod.fst hs) (Endpoint.isTimeout_timeoutCommand ep')⟩

theorem extendAll_extends : ∀ (us : List StatusUpdate) (fs : List (Finding α)) (d : Dispatch α),
    Extends d (d.extendAll us fs).2.1 (d.extendAll us fs).1 := by
  intro us fs d
  fun_induction extendAll d us fs with
  | case1 d u us clock fs d' posts e h =>
    have := extendOne_extends d (u.place.getD 0) clock
    rwa [h] at this
  | case2 d u us clock fs d' posts outcome h d'' later outcomes ht ih =>
    have h1 := extendOne_extends d (u.place.getD 0) clock
    rw [h] at h1
    rw [ht] at ih
    exact h1.trans ih
  | case3 d u us f fs hf d' posts outcomes ht ih => rwa [ht] at ih
  | case4 => exact extends_refl _

end Dispatch

end PrinterMotion
