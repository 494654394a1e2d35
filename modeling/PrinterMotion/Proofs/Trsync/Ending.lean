/-
The ends of a generation. A trigger, a passed expire clock or a request to stop ends it, and each of them
tells all endpoints but the winner. Reports that reach a dispatch together end it once or not at all, and
are no news to an idle one.
-/
import PrinterMotion.Proofs.Trsync.Handing

namespace PrinterMotion

variable {α : Type}

namespace Dispatch

/-! ## Decisions -/

/-- What ends a generation that was armed. -/
inductive Decision (α : Type) where
  | triggered (event : TriggerEvent α)
  | lapsed
  | stopped

namespace Decision

/-- The trigger that ended the generation, if one did. -/
def event? : Decision α → Option (TriggerEvent α)
  | triggered event => some event
  | _ => none

theorem event?_eq_some {d : Decision α} {event : TriggerEvent α} :
    d.event? = some event ↔ .triggered event = d := by
  cases d <;> simp [event?, eq_comm]

/-- The endpoint that has stopped by itself and is not told. -/
def winner? (d : Decision α) : Option Nat := d.event?.map TriggerEvent.endpoint

/-- What the endpoints are told; `reason` is that of the dispatch. -/
def told (reason : Reason) : Decision α → Reason
  | triggered _ => reason
  | lapsed => Reason.commsTimeout
  | stopped => Reason.hostRequest

end Decision

/-- The trigger that an outcome tells of. -/
def outcomeDecision? : StatusOutcome α → Option (Decision α)
  | .triggered event => some (.triggered event)
  | _ => none

/-- The decisions that an answer to reports tells of. -/
def answerDecisions : Except DispatchError (List (StatusOutcome α)) → List (Decision α)
  | .ok outcomes => outcomes.filterMap outcomeDecision?
  | .error (.lapsed ..) => [.lapsed]
  | .error _ => []

/-- The decision that an answer to a request to stop tells of. -/
def stopDecisions : Except DispatchError Bool → List (Decision α)
  | .ok true => [.stopped]
  | _ => []

/-- A generation under way ends by a decision: the winner is not told, and every other endpoint is if
it was not yet. -/
structure Ends (d : Dispatch α) (posts : List Post) (decision : Decision α) (d' : Dispatch α) : Prop where
  active : d.active = true
  idle : d'.active = false
  generation : d'.generation = d.generation
  trigger : d'.trigger = decision.event?.or d.trigger
  current : ∀ event, decision.event? = some event → event.generation = d.generation
  registered : ∀ k, decision.winner? = some k → k < d.endpoints.length
  address : d'.endpoints.map Endpoint.address = d.endpoints.map Endpoint.address
  handed : ∀ k, handed k posts = if decision.winner? = some k then [] else
    (d.endpoints[k]?.map (Endpoint.untold (decision.told d.reason))).getD []
  isTrigger : ∀ p ∈ posts, ∃ ep, d.endpoints[p.endpoint]? = some ep ∧ ep.IsTrigger p.command

/-- What is ended after clocks and links have changed was ended before. -/
theorem Ends.of_kept {d d' d'' : Dispatch α} {posts : List Post} {decision : Decision α} (h : Kept d d')
    (he : Ends d' posts decision d'') : Ends d posts decision d'' := by
  have haddr : d'.endpoints.map Endpoint.address = d.endpoints.map Endpoint.address := by
    simpa [Endpoint.standing, Function.comp_def] using congrArg (List.map Prod.fst) h.endpoints
  refine ⟨h.active ▸ he.active, he.idle, he.generation.trans h.generation, ?_, ?_, ?_,
    he.address.trans haddr, fun k => ?_, fun p hp => ?_⟩
  · rw [he.trigger, h.trigger]
  · rw [← h.generation]; exact he.current
  · rw [← h.length]; exact he.registered
  · rw [he.handed k, h.reason]
    cases hk : d'.endpoints[k]? with
    | none =>
      have : d.endpoints[k]? = none := by
        rw [List.getElem?_eq_none_iff] at hk ⊢; rwa [← h.length]
      rw [this]
    | some ep =>
      obtain ⟨ep', he', hs⟩ := exists_part_eq h.endpoints.symm hk
      simp only [he', Option.map_some, Option.getD_some, Endpoint.untold_of_standing hs]
  · obtain ⟨ep, hep, hc⟩ := he.isTrigger p hp
    obtain ⟨ep', he', hs⟩ := exists_part_eq h.endpoints.symm hep
    exact ⟨ep', he', Endpoint.isTrigger_of_address (congrArg Prod.fst hs).symm hc⟩

/-! ## Telling all endpoints -/

theorem broadcast_address (d : Dispatch α) (reason : Reason) :
    (d.broadcast reason).1.endpoints.map Endpoint.address = d.endpoints.map Endpoint.address :=
  tell_address reason 0 d.endpoints

/-- A dispatch that is not broken can be stopped, and is idle then. -/
theorem stop_ok {d : Dispatch α} (hb : d.broken = false) : (∃ stopped, d.stop.2.2 = .ok stopped) ∧
    d.stop.1.broken = false ∧ d.stop.1.active = false ∧ d.stop.1.endpoints.length = d.endpoints.length := by
  have hbroken : ¬ d.broken = true := by simp [hb]
  rw [stop, if_neg hbroken]
  by_cases hactive : d.active = true
  · rw [if_pos hactive]
    refine ⟨⟨true, rfl⟩, hb, rfl, ?_⟩
    have haddress := congrArg List.length (d.halt.broadcast_address Reason.hostRequest)
    rw [List.length_map, List.length_map] at haddress
    exact haddress
  · rw [if_neg hactive]
    exact ⟨⟨false, rfl⟩, hb, by simpa using hactive, rfl⟩

theorem handed_broadcast (d : Dispatch α) (reason : Reason) (k : Nat) :
    handed k (d.broadcast reason).2 = (d.endpoints[k]?.map (Endpoint.untold reason)).getD [] := by
  have h := handed_tell reason d.endpoints 0 k
  rwa [Nat.zero_add] at h

theorem broadcast_isTrigger (d : Dispatch α) (reason : Reason) : ∀ p ∈ (d.broadcast reason).2,
    ∃ ep, d.endpoints[p.endpoint]? = some ep ∧ ep.IsTrigger p.command := by
  intro p hp
  obtain ⟨k, ep, hk, he, hc⟩ := tell_isTrigger reason d.endpoints 0 p hp
  rw [Nat.zero_add] at hk
  exact ⟨ep, hk ▸ he, hc⟩

theorem ends_of_broadcast {d : Dispatch α} (ha : d.active = true) {decision : Decision α}
    (hd : decision.event? = none) :
    Ends d (d.halt.broadcast (decision.told d.reason)).2 decision
      (d.halt.broadcast (decision.told d.reason)).1 := by
  have hw : decision.winner? = none := by rw [Decision.winner?, hd]; rfl
  refine ⟨ha, rfl, rfl, by rw [hd]; rfl, by simp [hd], by simp [hw], broadcast_address d.halt _, fun k => ?_,
    broadcast_isTrigger d.halt _⟩
  rw [hw]
  exact handed_broadcast d.halt _ k

theorem abort_ends {d : Dispatch α} (ha : d.active = true) {error : DispatchError}
    (he : ∃ oid clock expire, error = .lapsed oid clock expire) :
    Ends d (d.abort error).2.1 .lapsed (d.abort error).1 ∧ answerDecisions (d.abort error).2.2 = [.lapsed] := by
  obtain ⟨oid, clock, expire, rfl⟩ := he
  have hnone : (Decision.lapsed : Decision α).event? = none := rfl
  exact ⟨ends_of_broadcast ha hnone, rfl⟩

/-- A trigger tells all endpoints but its own. -/
theorem fire_ends {d : Dispatch α} (ha : d.active = true) {t : Trip α} (ht : t.place < d.endpoints.length) :
    Ends d (d.fire t).2.1 (.triggered (d.fire t).2.2) (d.fire t).1 := by
  obtain ⟨d₁, hd₁⟩ : ∃ d₁ : Dispatch α, d₁ = { d.halt with
    endpoints := d.halt.endpoints.modify t.place fun ep => { ep with notified := true } } := ⟨_, rfl⟩
  have hposts : (d.fire t).2.1 = (d₁.broadcast d.reason).2 := by rw [hd₁]; rfl
  have hafter : (d.fire t).1.endpoints = (d₁.broadcast d.reason).1.endpoints := by rw [hd₁]; rfl
  have haddr : d₁.endpoints.map Endpoint.address = d.endpoints.map Endpoint.address := by
    rw [hd₁]
    apply List.ext_getElem?
    intro k
    simp only [List.getElem?_map, List.getElem?_modify, halt]
    cases d.endpoints[k]? with
    | none => rfl
    | some ep => by_cases hk : t.place = k <;> simp [hk, Endpoint.address]
  refine ⟨ha, rfl, rfl, rfl, ?_, ?_, ?_, fun k => ?_, fun p hp => ?_⟩
  · rintro _ ⟨⟩; rfl
  · rintro _ ⟨⟩; exact ht
  · rw [hafter]; exact (broadcast_address d₁ _).trans haddr
  · rw [hposts, handed_broadcast, hd₁, List.getElem?_modify]
    show _ = if some t.place = some k then [] else _
    by_cases hk : t.place = k
    · cases d.halt.endpoints[k]? <;> simp [hk, Endpoint.untold]
    · simp only [if_neg hk, Option.some.injEq, Decision.told, halt, id_map']
  · rw [hposts] at hp
    obtain ⟨ep, he, hc⟩ := broadcast_isTrigger d₁ _ p hp
    obtain ⟨ep', he', hae⟩ := exists_part_eq haddr.symm he
    exact ⟨ep', he', Endpoint.isTrigger_of_address hae.symm hc⟩

/-! ## Answers to reports -/

theorem filterMap_set_of_none {β γ : Type} {f : β → Option γ} : ∀ {l : List β} {i : Nat} {b : β},
    (∀ x ∈ l, f x = none) → i < l.length → (l.set i b).filterMap f = (f b).toList
  | x :: l, 0, b, h, _ => by
    have hl : l.filterMap f = [] := by
      rw [List.filterMap_eq_nil_iff]
      exact fun y hy => h y (List.mem_cons_of_mem _ hy)
    cases hb : f b <;> simp [hb, hl]
  | x :: l, i + 1, b, h, hi => by
    have ih := filterMap_set_of_none (f := f) (l := l) (i := i) (b := b)
      (fun y hy => h y (List.mem_cons_of_mem _ hy)) (by simpa using hi)
    simpa [h x (by simp)] using ih

/-- A winner is the only decision of an answer. -/
theorem answer_fire (fs : List (Finding α)) {i : Nat} (hi : i < fs.length) (event : TriggerEvent α) :
    answerDecisions (.ok ((fs.map Finding.outcome).set i (.triggered event))) = [.triggered event] := by
  refine filterMap_set_of_none (fun o ho => ?_) (by simpa using hi)
  obtain ⟨f, -, rfl⟩ := List.mem_map.1 ho
  cases f <;> rfl

theorem extendAll_length : ∀ (us : List StatusUpdate) (fs : List (Finding α)) (d : Dispatch α)
    (os : List (StatusOutcome α)), fs.length = us.length → (d.extendAll us fs).2.2 = .ok os →
      os.length = us.length := by
  intro us fs d
  fun_induction extendAll d us fs with
  | case1 => rintro os - ⟨⟩
  | case2 d u us clock fs d' posts outcome h d'' later outcomes ht ih =>
    intro os hl ho
    rw [ht] at ih
    cases outcomes with
    | error e => cases ho
    | ok os' => cases ho; simpa using ih os' (by simpa using hl) rfl
  | case3 d u us f fs hf d' posts outcomes ht ih =>
    intro os hl ho
    rw [ht] at ih
    cases outcomes with
    | error e => cases ho
    | ok os' => cases ho; simpa using ih os' (by simpa using hl) rfl
  | case4 us d fs h1 h2 =>
    intro os hl ho
    cases ho
    cases us with
    | nil => rfl
    | cons u us =>
      cases fs with
      | nil => cases hl
      | cons f fs => exact (h2 u us f fs rfl rfl).elim

/-- Extending takes no decision. -/
theorem extendAll_answer : ∀ (us : List StatusUpdate) (fs : List (Finding α)) (d : Dispatch α),
    answerDecisions (d.extendAll us fs).2.2 = [] := by
  intro us fs d
  fun_induction extendAll d us fs with
  | case1 d u us clock fs d' posts e h =>
    rcases d.extendOne_cases (u.place.getD 0) clock with heq | heq | ⟨ep, ep', -, -, heq⟩ <;>
      rw [heq] at h <;> cases h
    rfl
  | case2 d u us clock fs d' posts outcome h d'' later outcomes ht ih =>
    have ho : outcomeDecision? outcome = none := by
      rcases d.extendOne_cases (u.place.getD 0) clock with heq | heq | ⟨ep, ep', -, -, heq⟩ <;>
        rw [heq] at h <;> cases h <;> rfl
    rw [ht] at ih
    cases outcomes with
    | error e => exact ih
    | ok os => simpa [answerDecisions, Except.map, ho] using ih
  | case3 d u us f fs hf d' posts outcomes ht ih =>
    rw [ht] at ih
    cases outcomes with
    | error e => exact ih
    | ok os =>
      have ho : outcomeDecision? (Finding.outcome f) = none := by cases f <;> rfl
      simpa [answerDecisions, Except.map, ho] using ih
  | case4 => rfl

/-! ## Findings of reports -/

theorem foldl_mem {β : Type} (pick : β → β → β) (h : ∀ a b, pick a b = a ∨ pick a b = b) :
    ∀ (l : List β) (b : β), l.foldl pick b ∈ b :: l
  | [], b => by simp
  | c :: l, b => by
    have := foldl_mem pick h l (pick b c)
    rw [List.foldl_cons]
    rcases List.mem_cons.1 this with e | e
    · rw [e]
      rcases h b c with e | e <;> rw [e] <;> simp
    · exact List.mem_cons_of_mem _ (List.mem_cons_of_mem _ e)

theorem firstBy_mem {β : Type} {before : β → β → Bool} {l : List β} {b : β} (h : firstBy before l = some b) :
    b ∈ l := by
  cases l with
  | nil => cases h
  | cons c rest =>
    cases h
    exact foldl_mem _ (fun a b => by split <;> simp) rest c

theorem exists_of_mem_trips : ∀ (us : List StatusUpdate) (fs : List (Finding α)) (pos : Nat) (t : Trip α),
    t ∈ trips pos us fs → ∃ i u, us[i]? = some u ∧ fs[i]? = some (.trip t.clock t.hostTime) ∧
      t = ⟨pos + i, u.place.getD 0, u.report, t.clock, t.hostTime⟩ := by
  intro us fs pos t
  fun_induction trips pos us fs with
  | case1 pos u us clock hostTime fs ih =>
    intro h
    rcases List.mem_cons.1 h with rfl | h
    · exact ⟨0, u, rfl, rfl, rfl⟩
    · obtain ⟨i, u, hu, hf, ht⟩ := ih h
      rw [Nat.add_assoc, Nat.add_comm 1 i] at ht
      exact ⟨i + 1, u, by simpa using hu, by simpa using hf, ht⟩
  | case2 pos u us f fs hf ih =>
    intro h
    obtain ⟨i, u, hu, hf, ht⟩ := ih h
    rw [Nat.add_assoc, Nat.add_comm 1 i] at ht
    exact ⟨i + 1, u, by simpa using hu, by simpa using hf, ht⟩
  | case3 => intro h; cases h

theorem exists_of_mem_lapses : ∀ (us : List StatusUpdate) (fs : List (Finding α)) (l : Lapse α),
    l ∈ lapses us fs → ∃ (i : Nat) (u : StatusUpdate) (clock expire : UInt64), us[i]? = some u ∧
      fs[i]? = some (.lapse clock expire l.expiredAt) ∧
      l.error = .lapsed u.report.oid clock expire := by
  intro us fs l
  fun_induction lapses us fs with
  | case1 u us clock expire expiredAt fs ih =>
    intro h
    rcases List.mem_cons.1 h with rfl | h
    · exact ⟨0, u, clock, expire, rfl, rfl, rfl⟩
    · obtain ⟨i, u, clock, expire, hu, hf, he⟩ := ih h
      exact ⟨i + 1, u, clock, expire, by simpa using hu, by simpa using hf, he⟩
  | case2 u us f fs hf ih =>
    intro h
    obtain ⟨i, u, clock, expire, hu, hf, he⟩ := ih h
    exact ⟨i + 1, u, clock, expire, by simpa using hu, by simpa using hf, he⟩
  | case3 => intro h; cases h

variable [Scalar α]

/-- What is found was found at an endpoint. -/
theorem noteAll_found : ∀ (us : List StatusUpdate) (d : Dispatch α) (i : Nat) (f : Finding α),
    (d.noteAll us).2[i]? = some f → f ≠ .nothing →
      ∃ u p, us[i]? = some u ∧ u.place = some p ∧ p < d.endpoints.length
  | [], _, _, _, h, _ => by simp [noteAll] at h
  | u :: us, d, 0, f, h, hf => by
    simp only [noteAll, List.getElem?_cons_zero, Option.some.injEq] at h
    rcases d.note_cases u with heq | ⟨p, ep, hp, hep, -⟩
    · rw [heq] at h
      exact absurd h.symm hf
    · exact ⟨u, p, rfl, hp, (List.getElem?_eq_some_iff.1 hep).1⟩
  | u :: us, d, i + 1, f, h, hf => by
    obtain ⟨v, p, hv, hp, hlt⟩ := noteAll_found us (d.note u).1 i f (by simpa [noteAll] using h) hf
    exact ⟨v, p, by simpa using hv, hp, by rwa [(note_kept d u).length] at hlt⟩

/-! ## Reports that reach a dispatch together -/

/-- Reports are no news to an idle dispatch. -/
theorem batch_idle {d : Dispatch α} (hb : d.broken = false) (h : (d.active && d.canTrigger) = false)
    (us : List StatusUpdate) : d.batch us = (d, [], .ok (us.map fun _ => .ignored)) := by
  have ht : ∀ (us : List StatusUpdate) (n : Nat), trips n us (us.map fun _ => (Finding.nothing : Finding α)) = [] := by
    intro us
    induction us with
    | nil => intro n; rfl
    | cons u us ih => intro n; exact ih (n + 1)
  have hl : ∀ us : List StatusUpdate, lapses us (us.map fun _ => (Finding.nothing : Finding α)) = [] := by
    intro us
    induction us with
    | nil => rfl
    | cons u us ih => exact ih
  have he : ∀ us : List StatusUpdate, d.extendAll us (us.map fun _ => (Finding.nothing : Finding α)) =
      (d, [], .ok (us.map fun _ => .ignored)) := by
    intro us
    induction us with
    | nil => rfl
    | cons u us ih => simp only [List.map_cons, extendAll, ih]; rfl
  simp only [batch, hb, noteAll_idle h, ht, hl, firstBy, he]
  rfl

/-- Reports extend expire clocks of an active dispatch, or end its generation. -/
theorem batch_cases (d : Dispatch α) (us : List StatusUpdate) :
    (Extends d (d.batch us).2.1 (d.batch us).1 ∧ answerDecisions (d.batch us).2.2 = [] ∧
      ((d.batch us).2.1 ≠ [] → d.active = true)) ∨
    ∃ decision, Ends d (d.batch us).2.1 decision (d.batch us).1 ∧
      answerDecisions (d.batch us).2.2 = [decision] := by
  by_cases hb : d.broken = true
  · have : d.batch us = (d, [], .error .broken) := by unfold batch; rw [if_pos hb]
    rw [this]
    exact .inl ⟨extends_refl d, rfl, fun h => absurd rfl h⟩
  rw [Bool.not_eq_true] at hb
  by_cases ha : (d.active && d.canTrigger) = true
  swap
  · rw [batch_idle hb (by simpa using ha)]
    refine .inl ⟨extends_refl d, ?_, fun h => absurd rfl h⟩
    simp [answerDecisions, outcomeDecision?]
  have hact : d.active = true := (Bool.and_eq_true_iff.1 ha).1
  obtain ⟨d', fs, hn⟩ : ∃ d' fs, d.noteAll us = (d', fs) := ⟨_, _, rfl⟩
  have hk : Kept d d' := by simpa [hn] using noteAll_kept us d
  have hl : fs.length = us.length := by simpa [hn] using noteAll_length us d
  have hact' : d'.active = true := hk.active.trans hact
  have aborts : ∀ l ∈ lapses us fs, ∃ decision, Ends d (d'.abort l.error).2.1 decision (d'.abort l.error).1 ∧
      answerDecisions (d'.abort l.error).2.2 = [decision] := by
    intro l hl
    obtain ⟨-, u, clock, expire, -, -, he⟩ := exists_of_mem_lapses us fs l hl
    have := abort_ends hact' ⟨_, _, _, he⟩
    exact ⟨.lapsed, this.1.of_kept hk, this.2⟩
  simp only [batch, hb, hn]
  cases ht : firstBy Trip.earlier (trips 0 us fs) with
  | some t =>
    cases hlap : (firstBy (fun a b : Lapse α => Scalar.totalLt a.expiredAt b.expiredAt) (lapses us fs)).filter
        fun l => l.expiredAt < t.hostTime with
    | some l =>
      obtain ⟨h, -⟩ := Option.filter_eq_some_iff.1 hlap
      exact .inr (by simpa [hlap] using aborts l (firstBy_mem h))
    | none =>
      obtain ⟨i, u, hu, hf, heq⟩ := exists_of_mem_trips us fs 0 t (firstBy_mem ht)
      have hpos : t.position = 0 + i := by rw [heq]
      have hplace : t.place = u.place.getD 0 := by rw [heq]
      obtain ⟨v, p, hv, hp, hlt⟩ := noteAll_found us d i _ (by rw [hn]; exact hf) (by simp)
      have hi : t.position < fs.length := by
        rw [hpos, Nat.zero_add]; exact (List.getElem?_eq_some_iff.1 hf).1
      have hreg : t.place < d'.endpoints.length := by
        rw [hu] at hv
        cases hv
        rw [hplace, hp, hk.length]
        exact hlt
      refine .inr ⟨.triggered (d'.fire t).2.2, ?_, ?_⟩
      · simpa [hlap] using (fire_ends hact' hreg).of_kept hk
      · simpa [hlap] using answer_fire fs hi (d'.fire t).2.2
  | none =>
    cases hlap : firstBy (fun a b : Lapse α => Scalar.totalLt a.expiredAt b.expiredAt) (lapses us fs) with
    | some l => exact .inr (aborts l (firstBy_mem hlap))
    | none =>
      have extended : Extends d ([] ++ (d'.extendAll us fs).2.1) (d'.extendAll us fs).1 :=
        Extends.trans ⟨hk, by simp⟩ (extendAll_extends us fs d')
      exact .inl ⟨extended, extendAll_answer us fs d', fun _ => hact⟩

theorem batch_length {d : Dispatch α} {us : List StatusUpdate} {os : List (StatusOutcome α)}
    (h : (d.batch us).2.2 = .ok os) : os.length = us.length := by
  obtain ⟨d', fs, hn⟩ : ∃ d' fs, d.noteAll us = (d', fs) := ⟨_, _, rfl⟩
  have hl : fs.length = us.length := by simpa [hn] using noteAll_length us d
  simp only [batch, hn] at h
  split at h
  · cases h
  split at h
  · split at h
    · cases h
    · cases h; simpa using hl
  · cases h
  · exact extendAll_length us fs d' os hl h

end Dispatch

end PrinterMotion
