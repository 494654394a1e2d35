/-
Reports in the order in which a controller sends them. If their clocks follow closely on one another, the
endpoint of the controller takes each at its true value. A trigger whose clock is ahead of all that was
reported before is then found in the batch that brings it, whatever else the batch brings, and that batch
ends the generation.
-/
import PrinterMotion.Proofs.Trsync.Clocks

namespace PrinterMotion

variable {α : Type}

/-- Clocks of which each is near to the largest of `last` and those before it. -/
def Clock.Steady : UInt64 → List UInt64 → Prop
  | _, [] => True
  | last, c :: rest => Near last c ∧ Steady (if last < c then c else last) rest

namespace StatusReport

/-- The report of a running controller that reads the given clock. -/
def running (oid : UInt32) (clock : UInt64) : StatusReport := ⟨oid, true, 0, Clock.low clock⟩

/-- The report of a controller that has stopped at the given clock. -/
def tripped (oid : UInt32) (reason : Reason) (clock : UInt64) : StatusReport :=
  ⟨oid, false, reason, Clock.low clock⟩

end StatusReport

/-! ## One endpoint -/

namespace Endpoint

/-- The endpoint is to hear of the clocks `clocks` and then of a trigger at `last`, which is ahead of them
all. -/
structure Expects (ep : Endpoint α) (oid : UInt32) (clocks : List UInt64) (last : UInt64) : Prop where
  oid_eq : ep.oid = oid
  status_le : ep.window.lastStatus ≤ ep.clock.lastClock
  steady : Clock.Steady ep.clock.lastClock (clocks ++ [last])
  status_lt : ep.window.lastStatus < last
  ahead : ∀ c ∈ clocks, c < last

theorem Expects.congr {ep ep' : Endpoint α} {oid : UInt32} {clocks : List UInt64} {last : UInt64}
    (h : ep.Expects oid clocks last) (hm : ep'.marks = ep.marks) (ho : ep'.oid = ep.oid) :
    ep'.Expects oid clocks last := by
  simp only [marks, Marks.mk.injEq, UInt64.toNat_inj] at hm
  obtain ⟨hstatus, hlargest⟩ := hm
  exact ⟨ho.trans h.oid_eq, by rw [hstatus, hlargest]; exact h.status_le, by rw [hlargest]; exact h.steady,
    by rw [hstatus]; exact h.status_lt, h.ahead⟩

variable [Scalar α]

theorem Expects.note_running {ep : Endpoint α} {oid : UInt32} {clocks : List UInt64} {c last : UInt64}
    (h : ep.Expects oid (c :: clocks) last) : (ep.note (.running oid c)).1.Expects oid clocks last := by
  obtain ⟨hnear, hsteady⟩ := h.steady
  have hahead : ∀ c ∈ clocks, c < last := fun c hc => h.ahead c (List.mem_cons_of_mem _ hc)
  obtain ⟨-, ⟨hstale, hnote⟩ | ⟨hfresh, finding, -, hnote⟩⟩ :=
    Dispatch.note_sound (r := .running oid c) h.oid_eq.symm rfl hnear
  · -- a clock that is no news is not the largest either
    have hle := UInt64.not_lt.2 (UInt64.le_trans hstale h.status_le)
    rw [hnote]
    rw [if_neg hle] at hsteady
    exact ⟨h.oid_eq, h.status_le, hsteady, h.status_lt, hahead⟩
  · rw [hnote]
    refine ⟨h.oid_eq, ?_, hsteady, h.ahead c List.mem_cons_self, hahead⟩
    show c ≤ if ep.clock.lastClock < c then c else ep.clock.lastClock
    split
    · exact UInt64.le_refl c
    · exact UInt64.not_lt.1 (by assumption)

theorem Expects.note_tripped {ep : Endpoint α} {oid : UInt32} {last : UInt64} (h : ep.Expects oid [] last)
    (reason : Reason) : ∃ time, (ep.note (.tripped oid reason last)).2 = .trip last time := by
  have hextend : ep.clock.extend (Clock.low last) = last := ClockEstimate.extend_low h.steady.1
  have hnews : ¬(oid ≠ ep.oid ∨ last ≤ ep.window.lastStatus) := by
    rintro (ho | hle)
    · exact ho h.oid_eq.symm
    · exact UInt64.not_lt.2 hle h.status_lt
  refine ⟨(ep.clock.observe last).toTime last, ?_⟩
  simp only [note, StatusReport.tripped, hextend, if_neg hnews]
  rfl

end Endpoint

namespace Dispatch

/-- The reports to the endpoint at a place. -/
def reportsTo (place : Nat) (us : List StatusUpdate) : List StatusReport :=
  us.filterMap fun u => if u.place = some place then some u.report else none

/-- What the endpoint at a place is to hear of. -/
def Expects (d : Dispatch α) (place : Nat) (oid : UInt32) (clocks : List UInt64) (last : UInt64) : Prop :=
  ∃ ep, d.endpoints[place]? = some ep ∧ ep.Expects oid clocks last

variable [Scalar α]

/-! ## Reports in their order -/

theorem note_elsewhere (d : Dispatch α) {u : StatusUpdate} {place : Nat} (h : u.place ≠ some place) :
    (d.note u).1.endpoints[place]? = d.endpoints[place]? := by
  rcases note_cases d u with hn | ⟨p, ep, hp, -, hn⟩
  · rw [hn]
  · rw [hn]
    exact List.getElem?_set_ne fun he => h (by rw [hp, he])

theorem note_at {d : Dispatch α} (ha : (d.active && d.canTrigger) = true) {u : StatusUpdate} {place : Nat}
    (h : u.place = some place) {ep : Endpoint α} (hep : d.endpoints[place]? = some ep) :
    (d.note u).1.endpoints[place]? = some (ep.note u.report).1 ∧ (d.note u).2 = (ep.note u.report).2 := by
  have hlt := (List.getElem?_eq_some_iff.1 hep).1
  have hn : d.note u = ({ d with endpoints := d.endpoints.set place (ep.note u.report).1 },
      (ep.note u.report).2) := by
    unfold note
    simp only [h, Option.bind_some, hep, Option.map_some, ha, if_true]
  rw [hn]
  exact ⟨List.getElem?_set_self hlt, rfl⟩

theorem note_armed {d : Dispatch α} (ha : (d.active && d.canTrigger) = true) (u : StatusUpdate) :
    ((d.note u).1.active && (d.note u).1.canTrigger) = true := by
  have hk := note_kept d u
  rw [hk.active, hk.canTrigger, ha]

theorem noteAll_cons (d : Dispatch α) (u : StatusUpdate) (us : List StatusUpdate) : d.noteAll (u :: us) =
    (((d.note u).1.noteAll us).1, (d.note u).2 :: ((d.note u).1.noteAll us).2) := rfl

/-- The endpoint has heard of some of the clocks. -/
theorem noteAll_expects {place : Nat} {oid : UInt32} {more : List UInt64} {last : UInt64} :
    ∀ {us : List StatusUpdate} {d : Dispatch α} {clocks : List UInt64},
      (d.active && d.canTrigger) = true → d.Expects place oid (clocks ++ more) last →
        reportsTo place us = clocks.map (.running oid) → (d.noteAll us).1.Expects place oid more last
  | [], d, clocks, _, h, hr => by
    obtain rfl : clocks = [] := List.map_eq_nil_iff.1 hr.symm
    exact h
  | u :: us, d, clocks, ha, ⟨ep, hep, h⟩, hr => by
    rw [reportsTo, List.filterMap_cons] at hr
    rw [noteAll_cons]
    by_cases hu : u.place = some place
    · rw [if_pos hu] at hr
      cases clocks with
      | nil => cases hr
      | cons c clocks =>
        obtain ⟨hc, hr⟩ := List.cons.inj hr
        obtain ⟨hnext, -⟩ := note_at ha hu hep
        exact noteAll_expects (note_armed ha u) ⟨_, hnext, by rw [hc]; exact h.note_running⟩ hr
    · rw [if_neg hu] at hr
      exact noteAll_expects (note_armed ha u) ⟨ep, by rw [note_elsewhere d hu, hep], h⟩ hr

/-- The trigger that the endpoint was to hear of at last is found. -/
theorem noteAll_tripped {place : Nat} {oid : UInt32} {last : UInt64} {reason : Reason}
    {others : List StatusReport} : ∀ {us : List StatusUpdate} {d : Dispatch α} {clocks : List UInt64},
      (d.active && d.canTrigger) = true → d.Expects place oid clocks last →
        reportsTo place us = clocks.map (.running oid) ++ .tripped oid reason last :: others →
          ∃ time, Finding.trip last time ∈ (d.noteAll us).2
  | [], _, clocks, _, _, hr => by simp [reportsTo] at hr
  | u :: us, d, clocks, ha, ⟨ep, hep, h⟩, hr => by
    rw [reportsTo, List.filterMap_cons] at hr
    rw [noteAll_cons]
    by_cases hu : u.place = some place
    · rw [if_pos hu] at hr
      obtain ⟨hnext, hfound⟩ := note_at ha hu hep
      cases clocks with
      | nil =>
        obtain ⟨hc, -⟩ := List.cons.inj hr
        obtain ⟨time, htrip⟩ := h.note_tripped reason
        exact ⟨time, List.mem_cons.2 (.inl (by rw [hfound, hc, htrip]))⟩
      | cons c clocks =>
        obtain ⟨hc, hr⟩ := List.cons.inj hr
        obtain ⟨time, hmem⟩ := noteAll_tripped (note_armed ha u) ⟨_, hnext, by rw [hc]; exact h.note_running⟩ hr
        exact ⟨time, List.mem_cons_of_mem _ hmem⟩
    · rw [if_neg hu] at hr
      obtain ⟨time, hmem⟩ := noteAll_tripped (note_armed ha u) ⟨ep, by rw [note_elsewhere d hu, hep], h⟩ hr
      exact ⟨time, List.mem_cons_of_mem _ hmem⟩

/-! ## Batches -/

omit [Scalar α] in
theorem Expects.congr {d d' : Dispatch α} {place : Nat} {oid : UInt32} {clocks : List UInt64} {last : UInt64}
    (h : d.Expects place oid clocks last) (hm : d'.marks = d.marks)
    (ha : d'.endpoints.map Endpoint.address = d.endpoints.map Endpoint.address) :
    d'.Expects place oid clocks last := by
  obtain ⟨ep, hep, h⟩ := h
  obtain ⟨ep', hep', haddress⟩ := exists_part_eq ha hep
  obtain ⟨ep'', hep'', hmarks⟩ := exists_part_eq hm hep
  rw [hep'] at hep''
  cases hep''
  exact ⟨ep', hep', h.congr hmarks (congrArg (fun a => a.2.1) haddress)⟩

omit [Scalar α] in
theorem Kept.address {d d' : Dispatch α} (h : Kept d d') :
    d'.endpoints.map Endpoint.address = d.endpoints.map Endpoint.address := by
  simpa [Endpoint.standing, Function.comp_def] using congrArg (List.map Prod.fst) h.endpoints

/-- A batch that leaves the dispatch active has told the endpoint of some of the clocks. -/
theorem batch_expects {d : Dispatch α} {us : List StatusUpdate} {place : Nat} {oid : UInt32}
    {clocks more : List UInt64} {last : UInt64} (hc : d.canTrigger = d.active) (ha : d.active = true)
    (h : d.Expects place oid (clocks ++ more) last) (hr : reportsTo place us = clocks.map (.running oid))
    (ha' : (d.batch us).1.active = true) (hb' : (d.batch us).1.broken = false) :
    (d.batch us).1.Expects place oid more last := by
  have hnoted := noteAll_expects (by rw [hc, ha]; rfl) h hr
  rw [(batch_of_active ha' hb').1]
  exact hnoted.congr (marks_extendAll ..) (extendAll_extends ..).kept.address

/-- The batch that brings the trigger ends the generation. -/
theorem batch_tripped {d : Dispatch α} {us : List StatusUpdate} {place : Nat} {oid : UInt32}
    {clocks : List UInt64} {last : UInt64} {reason : Reason} {others : List StatusReport}
    (hc : d.canTrigger = d.active) (ha : d.active = true) (h : d.Expects place oid clocks last)
    (hr : reportsTo place us = clocks.map (.running oid) ++ .tripped oid reason last :: others)
    (hb' : (d.batch us).1.broken = false) : (d.batch us).1.active = false := by
  rw [← Bool.not_eq_true]
  intro ha'
  obtain ⟨time, htrip⟩ := noteAll_tripped (by rw [hc, ha]; rfl) h hr
  rcases (batch_of_active ha' hb').2.2 _ htrip with hf | ⟨clock, hf⟩ <;> cases hf

/-- Reports do not change what endpoints are addressed by. -/
theorem batch_address (d : Dispatch α) (us : List StatusUpdate) :
    (d.batch us).1.endpoints.map Endpoint.address = d.endpoints.map Endpoint.address := by
  rcases d.batch_cases us with ⟨hextends, -, -⟩ | ⟨decision, hends, -⟩
  · exact hextends.kept.address
  · exact hends.address

theorem noteAll_broken : ∀ (us : List StatusUpdate) (d : Dispatch α), (d.noteAll us).1.broken = d.broken
  | [], _ => rfl
  | u :: us, d => by
    refine (noteAll_broken us (d.note u).1).trans ?_
    rcases note_cases d u with hn | ⟨_, _, -, -, hn⟩ <;> rw [hn]

omit [Scalar α] in
theorem extendOne_broken {d : Dispatch α} {place : Nat} {clock : UInt64} {outcome : StatusOutcome α}
    (h : (d.extendOne place clock).2.2 = .ok outcome) : (d.extendOne place clock).1.broken = d.broken := by
  cases hep : d.endpoints[place]? with
  | none => simp [extendOne, hep]
  | some ep =>
    rw [extendOne_eq hep] at h ⊢
    cases hp : ep.prolong? place clock with
    | none => simp [hp] at h
    | some p => rfl

omit [Scalar α] in
theorem extendAll_broken {us : List StatusUpdate} {fs : List (Finding α)} {d : Dispatch α}
    {outcomes : List (StatusOutcome α)} (h : (d.extendAll us fs).2.2 = .ok outcomes) :
    (d.extendAll us fs).1.broken = d.broken := by
  fun_induction extendAll d us fs generalizing outcomes with
  | case1 d u us clock fs d' posts e hone => cases h
  | case2 d u us clock fs d' posts outcome hone d'' later os hall ih =>
    have hbroken : (d.extendOne (u.place.getD 0) clock).1.broken = d.broken := extendOne_broken (by rw [hone])
    cases os with
    | error e => cases h
    | ok os =>
      rw [hall] at ih
      rw [hone] at hbroken
      exact (ih rfl).trans hbroken
  | case3 d u us f fs hne d' posts os hall ih =>
    cases os with
    | error e => cases h
    | ok os =>
      rw [hall] at ih
      exact ih rfl
  | case4 => rfl

/-- A batch breaks the dispatch only if it fails by the range of the counter. -/
theorem batch_unbroken {d : Dispatch α} {us : List StatusUpdate} (hb : d.broken = false)
    (h : (d.batch us).2.2 ≠ .error .clockOverflow) : (d.batch us).1.broken = false := by
  have hnoted := noteAll_broken us d
  obtain ⟨d', fs, hn⟩ : ∃ d' fs, d.noteAll us = (d', fs) := ⟨_, _, rfl⟩
  rw [hn] at hnoted
  simp only [batch, hb, hn, Bool.false_eq_true, if_false] at h ⊢
  split
  · split
    · exact hnoted.trans hb
    · exact hnoted.trans hb
  · exact hnoted.trans hb
  · rename_i htrip hlapse
    simp only [htrip, hlapse] at h
    cases ho : (d'.extendAll us fs).2.2 with
    | ok outcomes => rw [extendAll_broken ho, hnoted, hb]
    | error e => exact absurd (by rw [ho, (extendAll_error ho).1]) h

end Dispatch

end PrinterMotion
