/-
The clocks that endpoints go by. A report carries the low half of the clock that its controller read, and
the endpoint extends it to the reading nearest to the largest one that its clock estimate holds. While the
true clock is within half of the range of 32 bits of that one, the extended clock is the true one, whether
or not the report is newer than others. So over a whole run an endpoint goes by true clocks alone: its
latest status and the largest clock of its estimate are the greatest of those that it was given.
-/
import Mathlib.Data.UInt
import PrinterMotion.Proofs.Elementwise
import PrinterMotion.Proofs.Exact
import PrinterMotion.Proofs.Trsync.Generation
import PrinterMotion.Proofs.Trsync.Reports

namespace PrinterMotion

variable {α : Type}

/-! ## Extended readings -/

namespace Clock

/-- The clock `c` is within half of the range of 32 bits of `last`. -/
def Near (last c : UInt64) : Prop := last.toNat ≤ c.toNat + 2 ^ 31 ∧ c.toNat < last.toNat + 2 ^ 31

instance (last c : UInt64) : Decidable (Near last c) := inferInstanceAs (Decidable (_ ∧ _))

theorem toNat_low (c : UInt64) : (low c).toNat = c.toNat % 2 ^ 32 := UInt64.toNat_toUInt32 c

theorem toNat_shift (clock : UInt64) (ticks : Int) :
    (shift clock ticks).toNat = ((clock.toNat + ticks) % 18446744073709551616).toNat := by
  rw [shift, UInt64.ofInt, UInt64.toNat_ofNat']
  exact Nat.mod_eq_of_lt (by omega)

theorem shift_sub (last c : UInt64) : shift last ((c.toNat : Int) - last.toNat) = c := by
  have hlt := c.toNat_lt
  rw [shift, add_sub_cancel, UInt64.ofInt, Int.emod_eq_of_lt (by omega) (by omega), Int.toNat_natCast,
    UInt64.ofNat_toNat]

end Clock

namespace ClockEstimate

theorem extend_low {ce : ClockEstimate α} {c : UInt64} (h : Clock.Near ce.lastClock c) :
    ce.extend (Clock.low c) = c := by
  obtain ⟨hlow, hhigh⟩ := h
  have hticks : Int.bmod (((Clock.low c).toNat : Int) - (Clock.low ce.lastClock).toNat) UInt32.size =
      (c.toNat : Int) - ce.lastClock.toNat := by
    rw [Clock.toNat_low, Clock.toNat_low]
    simp only [Int.bmod, UInt32.size]
    omega
  rw [extend, hticks, Clock.shift_sub]

theorem toNat_observe (ce : ClockEstimate α) (c : UInt64) :
    (ce.observe c).lastClock.toNat = max ce.lastClock.toNat c.toNat := by
  simp only [observe]
  split <;> simp_all only [UInt64.lt_iff_toNat_lt] <;> omega

end ClockEstimate

/-! ## What endpoints go by -/

/-- The clocks that an endpoint goes by: that of the latest status, and the largest of its estimate. -/
structure Marks where
  status : Nat
  largest : Nat
deriving Repr, DecidableEq

namespace Marks

/-- The marks of a new move, for which the clock of the latest status and an estimate are given. -/
def anew (status largest : Nat) : Marks := ⟨status, max largest status⟩

/-- The marks with another estimate. -/
def estimate (m : Marks) (largest : Nat) : Marks := { m with largest := max largest m.largest }

/-- The marks after a report. -/
def hear (m : Marks) (clock : Nat) : Marks := ⟨max m.status clock, max m.largest clock⟩

end Marks

/-- What is news for the endpoint at a place. -/
inductive ClockNews where
  | registered
  | anew (place status largest : Nat)
  | estimate (place largest : Nat)
  | report (place clock : Nat)

/-- The marks of all endpoints after news. -/
def ClockNews.learn (ms : List Marks) : ClockNews → List Marks
  | registered => ms ++ [⟨0, 0⟩]
  | anew place status largest => ms.modify place fun _ => .anew status largest
  | estimate place largest => ms.modify place fun m => m.estimate largest
  | report place clock => ms.modify place fun m => m.hear clock

namespace Endpoint

/-- The clocks that an endpoint has kept. -/
def marks (ep : Endpoint α) : Marks := ⟨ep.window.lastStatus.toNat, ep.clock.lastClock.toNat⟩

@[simp] theorem marks_setup (ep : Endpoint α) (w : ClockWindow) (ce : ClockEstimate α) :
    (ep.setup w ce).marks = .anew w.lastStatus.toNat ce.lastClock.toNat := by
  simp only [marks, setup, Marks.anew, ClockEstimate.toNat_observe]

@[simp] theorem marks_updateClock (ep : Endpoint α) (ce : ClockEstimate α) :
    (ep.updateClock ce).marks = ep.marks.estimate ce.lastClock.toNat := by
  simp only [marks, updateClock, Marks.estimate, ClockEstimate.toNat_observe]

end Endpoint

namespace Dispatch

/-- The clocks that each endpoint has kept. -/
def marks (d : Dispatch α) : List Marks := d.endpoints.map Endpoint.marks

/-! ## Sightings -/

/-- A report with the clock that its controller read. -/
structure Sighting where
  update : StatusUpdate
  clock : UInt64
  low_eq : Clock.low clock = update.report.clock

/-- A report that reaches a dispatch. -/
structure Hearing (α : Type) where
  dispatch : Dispatch α
  sighting : Sighting

/-- The dispatch is active, and the report is of the object of the endpoint at a place. -/
structure Hearing.Reaches (h : Hearing α) (place : Nat) (ep : Endpoint α) : Prop where
  active : h.dispatch.active = true
  address : h.sighting.update.place = some place
  endpoint : h.dispatch.endpoints[place]? = some ep
  oid : h.sighting.update.report.oid = ep.oid

/-- The endpoint that a report reaches, with its place. -/
def Hearing.reached? (h : Hearing α) : Option (Nat × Endpoint α) :=
  if h.dispatch.active then do
    let place ← h.sighting.update.place
    let ep ← h.dispatch.endpoints[place]?
    if h.sighting.update.report.oid = ep.oid then some (place, ep) else none
  else none

theorem Hearing.reached?_eq_some {h : Hearing α} {place : Nat} {ep : Endpoint α} :
    h.reached? = some (place, ep) ↔ h.Reaches place ep := by
  constructor
  · intro hr
    simp only [reached?] at hr
    split at hr
    · rename_i ha
      obtain ⟨place, hplace, hr⟩ := Option.bind_eq_some_iff.1 hr
      obtain ⟨ep, hep, hr⟩ := Option.bind_eq_some_iff.1 hr
      split at hr
      · rename_i hoid
        cases hr
        exact ⟨ha, hplace, hep, hoid⟩
      · cases hr
    · cases hr
  · intro hr
    simp [reached?, hr.active, hr.address, hr.endpoint, hr.oid]

/-- The news in a report, if it reaches an endpoint. -/
def Hearing.news? (h : Hearing α) : Option ClockNews :=
  h.reached?.map fun p => .report p.1 h.sighting.clock.toNat

/-- The clock that a finding is about. -/
def Finding.clock? : Finding α → Option UInt64
  | .nothing => none
  | .trip clock _ | .lapse clock _ _ | .running clock => some clock

variable [Scalar α]

/-- The reports of a batch, each with the dispatch that those before it have left. -/
def hearings (d : Dispatch α) : List Sighting → List (Hearing α)
  | [] => []
  | s :: rest => ⟨d, s⟩ :: hearings (d.note s.update).1 rest

/-- The endpoint has extended the clock of the report to the true one. The report is dropped if that is
not newer than the latest status, and otherwise it is found and becomes the latest status. -/
structure Hearing.Sound (h : Hearing α) (place : Nat) (ep : Endpoint α) : Prop where
  extend : ep.clock.extend h.sighting.update.report.clock = h.sighting.clock
  found : Finding.clock? (h.dispatch.note h.sighting.update).2 =
    if h.sighting.clock ≤ ep.window.lastStatus then none else some h.sighting.clock
  stale : h.sighting.clock ≤ ep.window.lastStatus → h.dispatch.note h.sighting.update = (h.dispatch, .nothing)
  fresh : ep.window.lastStatus < h.sighting.clock → ∃ ep', ep'.window.lastStatus = h.sighting.clock ∧
    (h.dispatch.note h.sighting.update).1 = { h.dispatch with endpoints := h.dispatch.endpoints.set place ep' }

/-! ## One report -/

/-- A report whose true clock is near is dropped if that is no news, and otherwise noted at that clock. -/
theorem note_sound {ep : Endpoint α} {r : StatusReport} {c : UInt64} (hoid : r.oid = ep.oid)
    (hlow : Clock.low c = r.clock) (hnear : Clock.Near ep.clock.lastClock c) :
    ep.clock.extend r.clock = c ∧ (c ≤ ep.window.lastStatus ∧ ep.note r = (ep, .nothing) ∨
      ep.window.lastStatus < c ∧ ∃ finding, Finding.clock? finding = some c ∧ ep.note r = ({ ep with
        clock := ep.clock.observe c, window := { ep.window with lastStatus := c } }, finding)) := by
  have hextend : ep.clock.extend r.clock = c := by rw [← hlow, ClockEstimate.extend_low hnear]
  refine ⟨hextend, ?_⟩
  simp only [Endpoint.note, hextend, hoid, ne_eq, not_true_eq_false, false_or]
  by_cases hc : c ≤ ep.window.lastStatus
  · exact .inl ⟨hc, if_pos hc⟩
  · rw [if_neg hc]
    refine .inr ⟨UInt64.not_le.1 hc, _, ?_, rfl⟩
    split
    · rfl
    · split <;> rfl

/-- The dispatch can trigger exactly while it is active, and no latest status is ahead of its estimate. -/
structure Tidy (d : Dispatch α) : Prop where
  canTrigger : d.canTrigger = d.active
  status_le : ∀ m ∈ d.marks, m.status ≤ m.largest

omit [Scalar α] in
theorem marks_set {d : Dispatch α} {place : Nat} {ep ep' : Endpoint α} {f : Marks → Marks}
    (h : d.endpoints[place]? = some ep) (hf : ep'.marks = f ep.marks) :
    ({ d with endpoints := d.endpoints.set place ep' } : Dispatch α).marks = d.marks.modify place f := by
  apply List.ext_getElem?
  intro i
  simp only [marks, List.getElem?_map, List.getElem?_set, List.getElem?_modify]
  by_cases hi : place = i
  · subst hi
    have hlt := (List.getElem?_eq_some_iff.1 h).1
    rw [if_pos rfl, if_pos hlt, h]
    simp [hf]
  · simp [hi]

omit [Scalar α] in
theorem marks_modify (d : Dispatch α) (place : Nat) {g : Endpoint α → Endpoint α} {f : Marks → Marks}
    (hf : ∀ ep, (g ep).marks = f ep.marks) :
    ({ d with endpoints := d.endpoints.modify place g } : Dispatch α).marks = d.marks.modify place f := by
  apply List.ext_getElem?
  intro i
  simp only [marks, List.getElem?_map, List.getElem?_modify]
  by_cases hi : place = i
  · cases d.endpoints[i]? <;> simp [hi, hf]
  · simp [hi]

namespace Hearing

variable {h : Hearing α} {place : Nat} {ep : Endpoint α}

theorem Reaches.note_eq (hr : h.Reaches place ep) (ht : h.dispatch.Tidy) :
    h.dispatch.note h.sighting.update =
      ({ h.dispatch with endpoints := h.dispatch.endpoints.set place (ep.note h.sighting.update.report).1 },
        (ep.note h.sighting.update.report).2) := by
  simp [note, hr.address, hr.endpoint, ht.canTrigger, hr.active]

theorem Reaches.sound (hr : h.Reaches place ep) (ht : h.dispatch.Tidy)
    (hnear : Clock.Near ep.clock.lastClock h.sighting.clock) : h.Sound place ep := by
  obtain ⟨hextend, hnote⟩ := note_sound hr.oid h.sighting.low_eq hnear
  have heq := hr.note_eq ht
  have hself : h.dispatch.endpoints.set place ep = h.dispatch.endpoints := by
    obtain ⟨hlt, rfl⟩ := List.getElem?_eq_some_iff.1 hr.endpoint
    exact List.set_getElem_self hlt
  rcases hnote with ⟨hc, hnote⟩ | ⟨hc, finding, hclock, hnote⟩
  · rw [hnote, hself] at heq
    refine ⟨hextend, ?_, fun _ => heq, fun hlt => absurd hlt (UInt64.not_lt.2 hc)⟩
    rw [heq, if_pos hc]
    rfl
  · rw [hnote] at heq
    refine ⟨hextend, ?_, fun hle => absurd hc (UInt64.not_lt.2 hle), fun _ => ⟨_, rfl, by rw [heq]⟩⟩
    rw [heq, if_neg (UInt64.not_le.2 hc), hclock]

/-- A report that reaches no endpoint finds nothing. -/
theorem note_of_missed (h : Hearing α) (hm : ∀ place ep, ¬ h.Reaches place ep) :
    h.dispatch.note h.sighting.update = (h.dispatch, .nothing) := by
  rcases note_cases h.dispatch h.sighting.update with hn | ⟨place, ep, hplace, hep, hn⟩
  · exact hn
  · by_cases ha : h.dispatch.active = true
    · have hoid : h.sighting.update.report.oid ≠ ep.oid := fun hoid => hm place ep ⟨ha, hplace, hep, hoid⟩
      have hself : h.dispatch.endpoints.set place ep = h.dispatch.endpoints := by
        obtain ⟨hlt, rfl⟩ := List.getElem?_eq_some_iff.1 hep
        exact List.set_getElem_self hlt
      rw [hn, Endpoint.note, if_pos (.inl hoid), hself]
    · exact note_idle (by simp [ha]) _

theorem note_marks (h : Hearing α) (ht : h.dispatch.Tidy)
    (hnear : ∀ place ep, h.Reaches place ep → Clock.Near ep.clock.lastClock h.sighting.clock) :
    (h.dispatch.note h.sighting.update).1.marks = h.news?.toList.foldl ClockNews.learn h.dispatch.marks := by
  cases hreach : h.reached? with
  | none =>
    have hmissed : ∀ place ep, ¬ h.Reaches place ep := by
      intro place ep hr
      rw [reached?_eq_some.2 hr] at hreach
      cases hreach
    rw [news?, hreach, h.note_of_missed hmissed]
    rfl
  | some p =>
    obtain ⟨place, ep⟩ := p
    have hr := reached?_eq_some.1 hreach
    have hnote := (note_sound hr.oid h.sighting.low_eq (hnear place ep hr)).2
    have hle : ep.window.lastStatus.toNat ≤ ep.clock.lastClock.toNat :=
      ht.status_le ep.marks (List.mem_map_of_mem (List.mem_of_getElem? hr.endpoint))
    have hmarks : (ep.note h.sighting.update.report).1.marks = ep.marks.hear h.sighting.clock.toNat := by
      rcases hnote with ⟨hc, hnote⟩ | ⟨hc, finding, -, hnote⟩
      · rw [UInt64.le_iff_toNat_le] at hc
        simp only [hnote, Endpoint.marks, Marks.hear, Marks.mk.injEq]
        omega
      · rw [UInt64.lt_iff_toNat_lt] at hc
        have hstatus : max ep.window.lastStatus.toNat h.sighting.clock.toNat = h.sighting.clock.toNat := by omega
        simp only [hnote, Endpoint.marks, Marks.hear, ClockEstimate.toNat_observe, hstatus]
    rw [news?, hreach, hr.note_eq ht, marks_set (f := fun m => m.hear h.sighting.clock.toNat) hr.endpoint hmarks]
    rfl

end Hearing

theorem learn_status_le {ms : List Marks} (h : ∀ m ∈ ms, m.status ≤ m.largest) (n : ClockNews) :
    ∀ m ∈ n.learn ms, m.status ≤ m.largest := by
  cases n with
  | registered =>
    intro m hm
    rcases List.mem_append.1 hm with hm | hm
    · exact h m hm
    · rw [List.mem_singleton.1 hm]
  | anew place status largest => exact forall_mem_modify h (fun m _ => by simp only [Marks.anew]; omega) place
  | estimate place largest => exact forall_mem_modify h (fun m hm => by simp only [Marks.estimate]; omega) place
  | report place clock => exact forall_mem_modify h (fun m hm => by simp only [Marks.hear]; omega) place

/-! ## Calls -/

omit [Scalar α] in
theorem Tidy.learn {d d' : Dispatch α} {news : List ClockNews} (h : d.Tidy)
    (hm : d'.marks = news.foldl ClockNews.learn d.marks) (hc : d'.canTrigger = d'.active) : d'.Tidy := by
  refine ⟨hc, ?_⟩
  rw [hm]
  have hall : ∀ (news : List ClockNews) (ms : List Marks), (∀ m ∈ ms, m.status ≤ m.largest) →
      ∀ m ∈ news.foldl ClockNews.learn ms, m.status ≤ m.largest := by
    intro news
    induction news with
    | nil => exact fun _ h => h
    | cons n rest ih => exact fun ms h => ih _ (learn_status_le h n)
  exact hall news d.marks h.status_le

/-- Reports that are noted together. -/
theorem noteAll_marks : ∀ (seen : List Sighting) {d : Dispatch α}, d.Tidy →
    (∀ h ∈ d.hearings seen, ∀ place ep, h.Reaches place ep → Clock.Near ep.clock.lastClock h.sighting.clock) →
      (∀ h ∈ d.hearings seen, h.dispatch.Tidy) ∧ (d.noteAll (seen.map Sighting.update)).1.marks =
        ((d.hearings seen).filterMap Hearing.news?).foldl ClockNews.learn d.marks
  | [], _, _, _ => ⟨(fun _ hh => by cases hh), rfl⟩
  | s :: rest, d, ht, hnear => by
    have hone := Hearing.note_marks ⟨d, s⟩ ht (hnear _ List.mem_cons_self)
    have hkept := note_kept d s.update
    have ht' : (d.note s.update).1.Tidy := ht.learn hone (by rw [hkept.canTrigger, hkept.active, ht.canTrigger])
    obtain ⟨htidy, hrest⟩ := noteAll_marks rest ht' fun h hh => hnear h (List.mem_cons_of_mem _ hh)
    constructor
    · intro h hh
      rcases List.mem_cons.1 hh with rfl | hh
      · exact ht
      · exact htidy h hh
    · simp only [List.map_cons, noteAll, hearings, List.filterMap_cons]
      rw [hrest, hone]
      cases Hearing.news? (⟨d, s⟩ : Hearing α) <;> rfl

omit [Scalar α] in
theorem marks_tell (reason : Reason) : ∀ (place : Nat) (eps : List (Endpoint α)),
    (tell reason place eps).1.map Endpoint.marks = eps.map Endpoint.marks
  | _, [] => rfl
  | place, ep :: rest => by
    have ih := marks_tell reason (place + 1) rest
    rw [tell_cons]
    split
    · simp [ih]
    · rw [List.map_cons, ih]
      rfl

omit [Scalar α] in
theorem marks_arm : ∀ (place : Nat) (eps : List (Endpoint α)),
    (arm place eps).1.map Endpoint.marks = eps.map Endpoint.marks
  | _, [] => rfl
  | place, ep :: rest => by
    have ih := marks_arm (place + 1) rest
    simp only [arm]
    split <;> simp [ih] <;> rfl

omit [Scalar α] in
@[simp] theorem marks_broadcast (d : Dispatch α) (reason : Reason) : (d.broadcast reason).1.marks = d.marks :=
  marks_tell reason 0 d.endpoints

omit [Scalar α] in
theorem marks_extendOne (d : Dispatch α) (place : Nat) (clock : UInt64) :
    (d.extendOne place clock).1.marks = d.marks := by
  rcases d.extendOne_cases place clock with heq | heq | ⟨ep, ep', hep, hext, heq⟩ <;> rw [heq]
  · rfl
  · have hsent : (ep'.sendTimeout place).1.marks = id ep.marks := by
      obtain ⟨expire, -, rfl⟩ := Option.map_eq_some_iff.1 hext
      rfl
    exact (marks_set hep hsent).trans (List.modify_id _ _)

omit [Scalar α] in
theorem marks_extendAll (us : List StatusUpdate) (fs : List (Finding α)) (d : Dispatch α) :
    (d.extendAll us fs).1.marks = d.marks := by
  fun_induction extendAll d us fs with
  | case1 d u us clock fs d' posts e h =>
    have hone := marks_extendOne d (u.place.getD 0) clock
    rwa [h] at hone
  | case2 d u us clock fs d' posts outcome h d'' later outcomes ht ih =>
    have hone := marks_extendOne d (u.place.getD 0) clock
    rw [h] at hone
    rw [ht] at ih
    exact ih.trans hone
  | case3 d u us f fs hne d' posts outcomes ht ih =>
    rwa [ht] at ih
  | case4 => rfl

/-- What follows on the noting of a batch moves no marks, and leaves the dispatch able to trigger as long
as it is active. -/
theorem batch_after (d : Dispatch α) (hb : d.broken = false) (hc : d.canTrigger = d.active)
    (us : List StatusUpdate) : (d.batch us).1.marks = (d.noteAll us).1.marks ∧
      (d.batch us).1.canTrigger = (d.batch us).1.active := by
  have hkept := noteAll_kept us d
  obtain ⟨d', fs, hn⟩ : ∃ d' fs, d.noteAll us = (d', fs) := ⟨_, _, rfl⟩
  rw [hn] at hkept ⊢
  have hc' : d'.canTrigger = d'.active := by rw [hkept.canTrigger, hkept.active, hc]
  have abort : ∀ e, (d'.abort e).1.marks = d'.marks ∧ (d'.abort e).1.canTrigger = (d'.abort e).1.active :=
    fun e => ⟨marks_broadcast d'.halt _, rfl⟩
  have fire : ∀ t, (d'.fire t).1.marks = d'.marks ∧ (d'.fire t).1.canTrigger = (d'.fire t).1.active := by
    refine fun t => ⟨?_, rfl⟩
    have hmodify := marks_modify d'.halt t.place (g := fun ep => { ep with notified := true }) (f := id) fun _ => rfl
    rw [List.modify_id] at hmodify
    exact (marks_broadcast _ _).trans hmodify
  simp only [batch, hb, hn, Bool.false_eq_true, if_false]
  split
  · split
    · exact abort _
    · exact fire _
  · exact abort _
  · refine ⟨marks_extendAll us fs d', ?_⟩
    have hext := (extendAll_extends us fs d').kept
    rw [hext.canTrigger, hext.active, hc']

/-! ## Runs -/

/-- The reports that a call brings. -/
def Call.updates : Call α → List StatusUpdate
  | .batch us => us
  | .status u => [u]
  | _ => []

/-- The news that a call brings besides reports. -/
def Call.news (d : Dispatch α) : Call α → List ClockNews
  | .register .. => if d.broken || d.active then [] else [.registered]
  | .setup place window clock =>
    if d.broken || d.active then [] else [.anew place window.lastStatus.toNat clock.lastClock.toNat]
  | .updateClock place clock => if d.broken then [] else [.estimate place clock.lastClock.toNat]
  | _ => []

/-- A call, with the clocks that controllers read for its reports. -/
structure TimedCall (α : Type) where
  call : Call α
  seen : List Sighting
  updates_eq : call.updates = seen.map Sighting.update

/-- The reports of a call as the dispatch gets to hear them, which is not at all if it is broken. -/
def TimedCall.hearings (t : TimedCall α) (d : Dispatch α) : List (Hearing α) :=
  if d.broken then [] else d.hearings t.seen

/-- All news that a call brings. -/
def TimedCall.news (t : TimedCall α) (d : Dispatch α) : List ClockNews :=
  t.call.news d ++ (t.hearings d).filterMap Hearing.news?

/-- All reports of a run. -/
def heardOver (d : Dispatch α) : List (TimedCall α) → List (Hearing α)
  | [] => []
  | t :: rest => t.hearings d ++ heardOver (d.call t.call).1 rest

/-- All news of a run. -/
def newsOver (d : Dispatch α) : List (TimedCall α) → List ClockNews
  | [] => []
  | t :: rest => t.news d ++ newsOver (d.call t.call).1 rest

/-- The true clocks of reports are near the largest clocks that the estimates of their endpoints hold. -/
def AllNear (hs : List (Hearing α)) : Prop :=
  ∀ h ∈ hs, ∀ place ep, h.Reaches place ep → Clock.Near ep.clock.lastClock h.sighting.clock

omit [Scalar α] in
theorem allNear_iff {hs : List (Hearing α)} :
    AllNear hs ↔ ∀ h ∈ hs, ∀ p ∈ h.reached?, Clock.Near p.2.clock.lastClock h.sighting.clock :=
  ⟨fun hall h hh p hp => hall h hh p.1 p.2 (Hearing.reached?_eq_some.1 hp),
    fun hall h hh _ _ hr => hall h hh _ (Hearing.reached?_eq_some.2 hr)⟩

instance (hs : List (Hearing α)) : Decidable (AllNear hs) := decidable_of_iff' _ allNear_iff

theorem batch_marks {d : Dispatch α} (ht : d.Tidy) (hb : d.broken = false) (seen : List Sighting)
    (hnear : AllNear (d.hearings seen)) : (∀ h ∈ d.hearings seen, h.dispatch.Tidy) ∧
      (d.batch (seen.map Sighting.update)).1.marks =
        ((d.hearings seen).filterMap Hearing.news?).foldl ClockNews.learn d.marks ∧
      (d.batch (seen.map Sighting.update)).1.canTrigger = (d.batch (seen.map Sighting.update)).1.active := by
  obtain ⟨htidy, hmarks⟩ := noteAll_marks seen ht hnear
  obtain ⟨hafter, hactive⟩ := batch_after d hb ht.canTrigger (seen.map Sighting.update)
  exact ⟨htidy, hafter.trans hmarks, hactive⟩

omit [Scalar α] in
theorem start_marks {d : Dispatch α} (hc : d.canTrigger = d.active) (reason : Reason) :
    (d.start reason).1.marks = d.marks ∧ (d.start reason).1.canTrigger = (d.start reason).1.active := by
  have harm := marks_arm 0 d.endpoints
  generalize hs : d.start reason = r
  cases hs ▸ d.started_start reason with
  | refused => exact ⟨rfl, hc⟩
  | armed => exact ⟨harm, rfl⟩
  | unreachable => exact ⟨(marks_broadcast _ _).trans harm, rfl⟩

omit [Scalar α] in
theorem stop_marks {d : Dispatch α} (hc : d.canTrigger = d.active) :
    d.stop.1.marks = d.marks ∧ d.stop.1.canTrigger = d.stop.1.active := by
  unfold stop
  split
  · exact ⟨rfl, hc⟩
  split
  · exact ⟨marks_broadcast d.halt _, rfl⟩
  · exact ⟨rfl, hc⟩

/-- A call without reports. -/
theorem silent_marks {d : Dispatch α} (hc : d.canTrigger = d.active) {c : Call α} (hu : c.updates = []) :
    (d.call c).1.marks = (c.news d).foldl ClockNews.learn d.marks ∧
      (d.call c).1.canTrigger = (d.call c).1.active := by
  cases c with
  | register link queue oid tags =>
    simp only [call, register, Call.news]
    by_cases hb : d.broken = true
    · simp [hb, hc]
    by_cases ha : d.active = true
    · simp [hb, ha, hc]
    · simp [hb, ha, hc, marks, ClockNews.learn, Endpoint.marks, ClockEstimate.ofFrequency, ClockEstimate.ofReference]
  | setup place window clock =>
    simp only [call, setup, Call.news]
    by_cases hb : d.broken = true
    · simp [hb, hc]
    by_cases ha : d.active = true
    · simp [hb, ha, hc]
    · have hmodify := marks_modify d place
        (f := fun _ => .anew window.lastStatus.toNat clock.lastClock.toNat) fun ep => ep.marks_setup window clock
      rw [if_neg hb, if_neg ha, if_neg (by simp [hb, ha])]
      exact ⟨hmodify, hc⟩
  | updateClock place clock =>
    simp only [call, updateClock, Call.news]
    by_cases hb : d.broken = true
    · simp [hb, hc]
    · have hmodify := marks_modify d place
        (f := fun m => m.estimate clock.lastClock.toNat) fun ep => ep.marks_updateClock clock
      rw [if_neg hb, if_neg hb]
      exact ⟨hmodify, hc⟩
  | start reason => exact start_marks hc reason
  | batch us =>
    obtain rfl : us = [] := hu
    rcases hb : d.broken with _ | _
    · obtain ⟨hafter, hactive⟩ := batch_after d hb hc []
      exact ⟨hafter, hactive⟩
    · simp [call, batch, hb, hc, Call.news]
  | status u => cases hu
  | stop => exact stop_marks hc
  | closeLinks =>
    refine ⟨?_, hc⟩
    simp only [call, closeLinks, marks, List.map_map, Call.news, List.foldl_nil]
    rfl

/-- A call teaches the endpoints its news, and nothing else. -/
theorem call_marks {d : Dispatch α} (ht : d.Tidy) (t : TimedCall α) (hnear : AllNear (t.hearings d)) :
    (∀ h ∈ t.hearings d, h.dispatch.Tidy) ∧ (d.call t.call).1.Tidy ∧
      (d.call t.call).1.marks = (t.news d).foldl ClockNews.learn d.marks := by
  suffices h : (∀ h ∈ t.hearings d, h.dispatch.Tidy) ∧
      (d.call t.call).1.marks = (t.news d).foldl ClockNews.learn d.marks ∧
      (d.call t.call).1.canTrigger = (d.call t.call).1.active from ⟨h.1, ht.learn h.2.1 h.2.2, h.2.1⟩
  have hc := ht.canTrigger
  have hnews : t.hearings d = [] → t.news d = t.call.news d := by
    intro hnil
    rw [TimedCall.news, hnil, List.filterMap_nil, List.append_nil]
  by_cases hu : t.call.updates = []
  · have hnil : t.hearings d = [] := by
      have hseen : t.seen = [] := by simpa [hu] using t.updates_eq.symm
      rw [TimedCall.hearings, hseen]
      split <;> rfl
    rw [hnews hnil, hnil]
    exact ⟨(fun _ hh => by cases hh), silent_marks hc hu⟩
  · have hbatch : (d.call t.call).1 = (d.batch (t.seen.map Sighting.update)).1 ∧ t.call.news d = [] := by
      rw [← t.updates_eq]
      cases hcall : t.call with
      | batch us => exact ⟨rfl, rfl⟩
      | status u => exact ⟨rfl, rfl⟩
      | _ => exact absurd (by rw [hcall]; rfl) hu
    rw [hbatch.1]
    rcases hb : d.broken with _ | _
    · have hhear : t.hearings d = d.hearings t.seen := by rw [TimedCall.hearings, hb]; rfl
      rw [TimedCall.news, hbatch.2, List.nil_append, hhear]
      rw [hhear] at hnear
      exact batch_marks ht hb t.seen hnear
    · have hhear : t.hearings d = [] := by rw [TimedCall.hearings, hb]; rfl
      rw [hnews hhear, hbatch.2, hhear]
      simp [batch, hb, hc]

theorem run_marks : ∀ (run : List (TimedCall α)) {d : Dispatch α}, d.Tidy → AllNear (heardOver d run) →
    (∀ h ∈ heardOver d run, h.dispatch.Tidy) ∧
      (runFrom d (run.map TimedCall.call)).marks = (newsOver d run).foldl ClockNews.learn d.marks
  | [], _, _, _ => ⟨(fun _ hh => by cases hh), rfl⟩
  | t :: rest, d, ht, hnear => by
    obtain ⟨htidy, ht', hmarks⟩ := call_marks ht t fun h hh => hnear h (List.mem_append_left _ hh)
    obtain ⟨hrest, hrun⟩ := run_marks rest ht' fun h hh => hnear h (List.mem_append_right _ hh)
    refine ⟨fun h hh => (List.mem_append.1 hh).elim (htidy h) (hrest h), ?_⟩
    simp only [List.map_cons, runFrom, List.foldl_cons, newsOver, List.foldl_append]
    rw [← hmarks]
    exact hrun

/-- In any run whose reports come within half of the range of 32 bits of what the estimates of their
endpoints hold, each report that reaches an endpoint of the active dispatch is taken at its true clock: it
is dropped exactly if that is not newer than the latest status, and otherwise becomes the latest status. So
in the end the marks of all endpoints are those that the true clocks alone make. -/
theorem clocks_exact (run : List (TimedCall α)) (hnear : AllNear (heardOver empty run)) :
    (∀ h ∈ heardOver empty run, ∀ place ep, h.Reaches place ep → h.Sound place ep) ∧
      (runFrom empty (run.map TimedCall.call)).marks = (newsOver empty run).foldl ClockNews.learn [] := by
  have hempty : (empty : Dispatch α).Tidy := ⟨rfl, fun _ hm => by cases hm⟩
  obtain ⟨htidy, hmarks⟩ := run_marks run hempty hnear
  exact ⟨fun h hh place ep hr => hr.sound (htidy h hh) (hnear h hh place ep hr), hmarks⟩

/-- A running controller's report to the only endpoint. -/
def sightingOf (clock : UInt64) : Sighting := ⟨⟨some 0, ⟨7, true, 0, Clock.low clock⟩⟩, clock, rfl⟩

/-- Reports just in front of and behind two ends of the 32-bit range, out of order, between which the
estimate is replaced. -/
def acrossWraps : List (TimedCall ℚ) :=
  [⟨.register .intact 0 7 ⟨1, 2, 3⟩, [], rfl⟩,
    ⟨.setup 0 ⟨2 ^ 32 - 10, 2 ^ 34, 0, 0⟩ (.ofReference (2 ^ 32 - 30) 0 1), [], rfl⟩, ⟨.start 1, [], rfl⟩,
    ⟨.batch ([2 ^ 32 + 5, 2 ^ 32 - 20, 2 ^ 32 + 2 ^ 31 - 1].map fun c => (sightingOf c).update),
      [2 ^ 32 + 5, 2 ^ 32 - 20, 2 ^ 32 + 2 ^ 31 - 1].map sightingOf, rfl⟩,
    ⟨.updateClock 0 (.ofReference (2 ^ 33 - 4) 0 1), [], rfl⟩,
    ⟨.status (sightingOf (2 ^ 33 + 2 ^ 31 - 5)).update, [sightingOf (2 ^ 33 + 2 ^ 31 - 5)], rfl⟩,
    ⟨.status (sightingOf (2 ^ 33 - 5)).update, [sightingOf (2 ^ 33 - 5)], rfl⟩]

theorem clocks_exact_acrossWraps : AllNear (heardOver empty acrossWraps) ∧
    (runFrom empty (acrossWraps.map TimedCall.call)).marks = [⟨2 ^ 33 + 2 ^ 31 - 5, 2 ^ 33 + 2 ^ 31 - 5⟩] ∧
    ((heardOver empty acrossWraps).filterMap Hearing.news?).length = 5 := by
  have hnear : AllNear (heardOver empty acrossWraps) := by decide +kernel
  obtain ⟨-, hmarks⟩ := clocks_exact acrossWraps hnear
  refine ⟨hnear, ?_, by decide +kernel⟩
  rw [hmarks]
  decide +kernel

end Dispatch

end PrinterMotion
