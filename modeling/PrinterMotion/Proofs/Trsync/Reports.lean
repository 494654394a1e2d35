/-
What reports do to the endpoints they are for. A report changes nothing but the endpoint at its place,
and finds there what that endpoint alone decides; an extension likewise. A batch that leaves the dispatch
active has found running controllers only, and has extended their expire clocks.
-/
import PrinterMotion.Proofs.Trsync.Ending

namespace PrinterMotion

variable {α : Type}

namespace Endpoint

/-- A report is dropped, or something is found and its clock becomes the latest status. -/
theorem note_cases [Scalar α] (ep : Endpoint α) (r : StatusReport) :
    ep.note r = (ep, .nothing) ∨
    ∃ clock finding, ep.note r = ({ ep with
        clock := ep.clock.observe clock, window := { ep.window with lastStatus := clock } }, finding) ∧
      finding ≠ .nothing ∧ ∀ c, finding = .running c → c = clock := by
  unfold note
  simp only
  split
  · exact .inl rfl
  right
  refine ⟨_, _, rfl, ?_, fun c hc => ?_⟩
  · split <;> [skip; split] <;> simp
  · split at hc
    · cases hc
    split at hc
    · cases hc
    · cases hc; rfl

/-- What comes of a report of a running controller: the endpoint and the commands to it, with the outcome;
none if a sum of clocks does not fit the counter. -/
def prolong? (ep : Endpoint α) (place : Nat) (clock : UInt64) :
    Option (Endpoint α × List Post × StatusOutcome α) :=
  match ep.wantsExtension? clock with
  | none => none
  | some false => some (ep, [], .recorded)
  | some true => (ep.extend? clock).map fun ep =>
    ((ep.sendTimeout place).1, [(ep.sendTimeout place).2], .extended ep.window.expire)

theorem endpoint_of_prolong? {ep ep' : Endpoint α} {place : Nat} {clock : UInt64} {posts : List Post}
    {outcome : StatusOutcome α} (h : ep.prolong? place clock = some (ep', posts, outcome)) :
    ∀ p ∈ posts, p.endpoint = place := by
  intro p hp
  unfold prolong? at h
  split at h
  · cases h
  · cases h; cases hp
  · obtain ⟨e, -, h⟩ := Option.map_eq_some_iff.1 h
    cases h
    rw [List.mem_singleton.1 hp]
    rfl

end Endpoint

namespace Dispatch

/-- The clock of a running controller. -/
def Finding.running? : Finding α → Option UInt64
  | .running clock => some clock
  | _ => none

/-! ## Triggers and passed expire clocks among findings -/

theorem mem_trips_of : ∀ {us : List StatusUpdate} {fs : List (Finding α)} (pos : Nat) {i : Nat}
    {u : StatusUpdate} {clock : UInt64} {hostTime : α}, us[i]? = some u →
    fs[i]? = some (.trip clock hostTime) →
      ⟨pos + i, u.place.getD 0, u.report, clock, hostTime⟩ ∈ trips pos us fs := by
  intro us fs pos
  fun_induction trips pos us fs with
  | case1 pos u us clock hostTime fs ih =>
    rintro (_ | i) v c t hu hf
    · cases hu; cases hf; simp
    · have := ih hu hf
      rw [Nat.add_right_comm] at this
      exact List.mem_cons_of_mem _ this
  | case2 pos u us f fs hne ih =>
    rintro (_ | i) v c t hu hf
    · cases hf; exact (hne c t rfl).elim
    · have := ih hu hf
      rwa [Nat.add_right_comm] at this
  | case3 us pos fs h1 h2 =>
    intro i v c t hu hf
    cases us with
    | nil => simp at hu
    | cons u us =>
      cases fs with
      | nil => simp at hf
      | cons f fs => exact (h2 u us f fs rfl rfl).elim

theorem mem_lapses_of : ∀ {us : List StatusUpdate} {fs : List (Finding α)} {i : Nat}
    {u : StatusUpdate} {clock expire : UInt64} {expiredAt : α}, us[i]? = some u →
    fs[i]? = some (.lapse clock expire expiredAt) →
      ⟨expiredAt, .lapsed u.report.oid clock expire⟩ ∈ lapses us fs := by
  intro us fs
  fun_induction lapses us fs with
  | case1 u us clock expire expiredAt fs ih =>
    rintro (_ | i) v c e t hu hf
    · cases hu; cases hf; simp
    · exact List.mem_cons_of_mem _ (ih hu hf)
  | case2 u us f fs hne ih =>
    rintro (_ | i) v c e t hu hf
    · cases hf; exact (hne c e t rfl).elim
    · exact ih hu hf
  | case3 us fs h1 h2 =>
    intro i v c e t hu hf
    cases us with
    | nil => simp at hu
    | cons u us =>
      cases fs with
      | nil => simp at hf
      | cons f fs => exact (h2 u us f fs rfl rfl).elim

theorem firstBy_eq_none {β : Type} {before : β → β → Bool} {l : List β} : firstBy before l = none ↔ l = [] := by
  cases l <;> simp [firstBy]

/-- Nothing is found that would stop the dispatch. -/
def Finding.Quiet (f : Finding α) : Prop := f = .nothing ∨ ∃ clock, f = .running clock

theorem quiet_of_nil {us : List StatusUpdate} {fs : List (Finding α)} (hlen : fs.length = us.length)
    (htrips : trips 0 us fs = []) (hlapses : lapses us fs = []) : ∀ f ∈ fs, Finding.Quiet f := by
  intro f hf
  obtain ⟨i, hi⟩ := List.getElem?_of_mem hf
  have hlt : i < us.length := hlen ▸ (List.getElem?_eq_some_iff.1 hi).1
  have hu : us[i]? = some us[i] := List.getElem?_eq_getElem hlt
  cases f with
  | nothing => exact .inl rfl
  | running clock => exact .inr ⟨clock, rfl⟩
  | trip clock hostTime =>
    have := mem_trips_of 0 hu hi
    rw [htrips] at this
    cases this
  | lapse clock expire expiredAt =>
    have := mem_lapses_of hu hi
    rw [hlapses] at this
    cases this

/-! ## Extending one expire clock -/

theorem extendOne_eq {d : Dispatch α} {place : Nat} {ep : Endpoint α} (h : d.endpoints[place]? = some ep)
    (clock : UInt64) : d.extendOne place clock =
      match ep.prolong? place clock with
      | none => ({ d with broken := true }, [], .error .clockOverflow)
      | some (ep', posts, outcome) =>
        ({ d with endpoints := d.endpoints.set place ep' }, posts, .ok outcome) := by
  unfold extendOne Endpoint.prolong?
  simp only [h]
  cases ep.wantsExtension? clock with
  | none => rfl
  | some wants =>
    cases wants with
    | false =>
      have hset : d.endpoints.set place ep = d.endpoints := by
        obtain ⟨hlt, rfl⟩ := List.getElem?_eq_some_iff.1 h
        exact List.set_getElem_self hlt
      simp only [hset]
    | true => cases ep.extend? clock <;> rfl

/-- Only a sum that does not fit the counter stops extending, and it breaks the dispatch. -/
theorem extendAll_error {us : List StatusUpdate} {fs : List (Finding α)} {d : Dispatch α}
    {e : DispatchError} (h : (d.extendAll us fs).2.2 = .error e) :
    e = .clockOverflow ∧ (d.extendAll us fs).1.broken = true := by
  fun_induction extendAll d us fs with
  | case1 d u us clock fs d' posts e' hone =>
    cases h
    rcases d.extendOne_cases (u.place.getD 0) clock with heq | heq | ⟨ep, ep', -, -, heq⟩ <;>
      rw [heq] at hone <;> cases hone
    exact ⟨rfl, rfl⟩
  | case2 d u us clock fs d' posts outcome hone d'' later outcomes hall ih =>
    rw [hall] at ih
    cases outcomes with
    | error e' => cases h; exact ih rfl
    | ok os => cases h
  | case3 d u us f fs hne d' posts outcomes hall ih =>
    rw [hall] at ih
    cases outcomes with
    | error e' => cases h; exact ih rfl
    | ok os => cases h
  | case4 => cases h

variable [Scalar α]

/-! ## Batches that leave the dispatch active -/

/-- A batch that neither stops nor breaks the dispatch has found nothing but running controllers, and
extends their expire clocks. -/
theorem batch_of_active {d : Dispatch α} {us : List StatusUpdate} (ha : (d.batch us).1.active = true)
    (hb : (d.batch us).1.broken = false) :
    d.batch us = (d.noteAll us).1.extendAll us (d.noteAll us).2 ∧
      (∃ outcomes, (d.batch us).2.2 = .ok outcomes) ∧
      ∀ f ∈ (d.noteAll us).2, f = .nothing ∨ ∃ clock, f = .running clock := by
  have hlen := noteAll_length us d
  obtain ⟨d', fs, hn⟩ : ∃ d' fs, d.noteAll us = (d', fs) := ⟨_, _, rfl⟩
  rw [hn] at hlen ⊢
  unfold batch at ha hb ⊢
  by_cases hbroken : d.broken = true
  · rw [if_pos hbroken, hbroken] at hb; cases hb
  simp only [if_neg hbroken, hn] at ha hb ⊢
  cases htrip : firstBy Trip.earlier (trips 0 us fs) with
  | some t =>
    simp only [htrip] at ha
    split at ha <;> cases ha
  | none =>
    cases hlapse : firstBy (fun a b : Lapse α => Scalar.totalLt a.expiredAt b.expiredAt) (lapses us fs) with
    | some l => simp only [htrip, hlapse] at ha; cases ha
    | none =>
      simp only [htrip, hlapse] at hb ⊢
      refine ⟨trivial, ?_, quiet_of_nil hlen (firstBy_eq_none.1 htrip) (firstBy_eq_none.1 hlapse)⟩
      cases ho : (d'.extendAll us fs).2.2 with
      | ok os => exact ⟨os, rfl⟩
      | error e => rw [(extendAll_error ho).2] at hb; cases hb

end Dispatch

end PrinterMotion
