/-
Reports of running controllers. A batch that nothing stops notes all reports first and extends expire clocks
behind that, while single reports are noted and extended one after the other. Both do the same, as noting and
extending at one endpoint neither sees nor changes the others.
-/
import PrinterMotion.Proofs.Exact
import PrinterMotion.Proofs.Trsync.Sweep

namespace PrinterMotion

variable {α : Type} [Scalar α]

namespace Dispatch

variable {d : Dispatch α} {us us' : List StatusUpdate}

/-! ## A batch of running controllers -/

instance (f : Finding α) : Decidable (Finding.Quiet f) :=
  match f with
  | .nothing => .isTrue (.inl rfl)
  | .running clock => .isTrue (.inr ⟨clock, rfl⟩)
  | .trip .. => .isFalse fun h => by rcases h with h | ⟨clock, h⟩ <;> cases h
  | .lapse .. => .isFalse fun h => by rcases h with h | ⟨clock, h⟩ <;> cases h

omit [Scalar α] in
theorem quiet_of_ne {f : Finding α} (ht : ∀ clock hostTime, f ≠ .trip clock hostTime)
    (hl : ∀ clock expire expiredAt, f ≠ .lapse clock expire expiredAt) : Finding.Quiet f := by
  cases f with
  | nothing => exact .inl rfl
  | trip clock hostTime => exact absurd rfl (ht clock hostTime)
  | lapse clock expire expiredAt => exact absurd rfl (hl clock expire expiredAt)
  | running clock => exact .inr ⟨clock, rfl⟩

theorem place_of_finding {u : StatusUpdate} (h : d.finding u ≠ .nothing) :
    ∃ p, u.place = some p ∧ p < d.endpoints.length := by
  rcases note_cases d u with hn | ⟨p, ep, hp, hep, -⟩
  · exact absurd (congrArg Prod.snd hn) h
  · exact ⟨p, hp, (List.getElem?_eq_some_iff.1 hep).1⟩

/-- The dispatch in which all reports of a batch are noted. -/
def noted (d : Dispatch α) (us : List StatusUpdate) : Dispatch α := (d.noteAll us).1

theorem noteAll_eq (h : (us.map StatusUpdate.place).Nodup) :
    d.noteAll us = (d.noted us, us.map d.finding) :=
  Prod.ext rfl (findings_eq d h)

/-- Where nothing stops the dispatch, expire clocks are extended. -/
theorem batch_of_running (hb : d.broken = false) (hn : (us.map StatusUpdate.place).Nodup)
    (hquiet : ∀ v ∈ us, Finding.Quiet (d.finding v)) : d.batch us = (d.noted us).extendAll us (us.map d.finding) := by
  have hfound : ∀ (i : Nat) f, (us.map d.finding)[i]? = some f → Finding.Quiet f := by
    intro i f hf
    rw [List.getElem?_map] at hf
    obtain ⟨v, hv, rfl⟩ := Option.map_eq_some_iff.1 hf
    exact hquiet v (List.mem_of_getElem? hv)
  have htrips : trips 0 us (us.map d.finding) = [] := by
    rw [List.eq_nil_iff_forall_not_mem]
    intro t ht
    obtain ⟨i, u, -, hf, -⟩ := exists_of_mem_trips us _ 0 t ht
    rcases hfound i _ hf with h | ⟨clock, h⟩ <;> cases h
  have hlapses : lapses us (us.map d.finding) = [] := by
    rw [List.eq_nil_iff_forall_not_mem]
    intro l hl
    obtain ⟨i, u, clock, expire, -, hf, -⟩ := exists_of_mem_lapses us _ l hl
    rcases hfound i _ hf with h | ⟨clock, h⟩ <;> cases h
  simp only [batch, hb, noteAll_eq hn, htrips, hlapses]
  rfl

theorem noted_perm (d : Dispatch α) (hp : us.Perm us') (hn : (us.map StatusUpdate.place).Nodup) :
    d.noted us = d.noted us' :=
  noteAll_perm d hp hn

theorem foundAtPlaces (d : Dispatch α) (us vs : List StatusUpdate) :
    FoundAtPlaces d.finding us (d.noted vs).endpoints.length := by
  intro u _ clock hf
  rw [noted, (noteAll_kept vs d).length]
  exact place_of_finding (by rw [hf]; simp)

theorem broken_of_batch (intact : (d.batch us).1.broken = false) : d.broken = false := by
  cases h : d.broken with
  | false => rfl
  | true =>
    unfold batch at intact
    rw [if_pos h] at intact
    exact h.symm.trans intact

/-- Where a batch of running controllers does not break the dispatch, all sums fit the counter. -/
theorem fits_of_batch (hb : d.broken = false) (hn : (us.map StatusUpdate.place).Nodup)
    (hquiet : ∀ v ∈ us, Finding.Quiet (d.finding v)) (intact : (d.batch us).1.broken = false) :
    ∀ u ∈ us, Fits d.finding (d.noted us) u := by
  rw [batch_of_running hb hn hquiet] at intact
  exact fits_of_extendAll hn (foundAtPlaces d us us) intact

/-- Extending over reports of running controllers, as a result for each of them. -/
theorem batch_eq_sweep (hb : d.broken = false) (hn : (us.map StatusUpdate.place).Nodup)
    (hquiet : ∀ v ∈ us, Finding.Quiet (d.finding v)) (hfits : ∀ u ∈ us, Fits d.finding (d.noted us) u) :
    d.batch us = ((sweep (settle d.finding) (d.noted us) us).1,
      us.flatMap fun u => (settle d.finding u (d.noted us)).2.1,
      .ok (us.map fun u => (settle d.finding u (d.noted us)).2.2)) := by
  rw [batch_of_running hb hn hquiet, extendAll_eq_sweep hn (foundAtPlaces d us us) hfits,
    sweep_results (settle_local d.finding) (d.noted us) hn, List.flatMap_map, List.map_map]
  rfl

/-! ## One report -/

/-- What noting and extending do for one report that finds what it is said to. -/
def handle (found : StatusUpdate → Finding α) (u : StatusUpdate) (d : Dispatch α) :
    Dispatch α × List Post × StatusOutcome α :=
  settle found u (d.note u).1

theorem handle_local (found : StatusUpdate → Finding α) (u : StatusUpdate) : LocalAt u.place (handle found u) :=
  (note_local u).andThen (settle_local found u)

variable {found : StatusUpdate → Finding α} {u v : StatusUpdate}

/-- A report that finds what it is said to and does not stop or break the dispatch. -/
structure Calm (found : StatusUpdate → Finding α) (d : Dispatch α) (u : StatusUpdate) : Prop where
  intact : d.broken = false
  finding : d.finding u = found u
  quiet : Finding.Quiet (found u)
  fits : Fits found (d.note u).1 u

omit [Scalar α] in
theorem settle_congr {found found' : StatusUpdate → Finding α} (h : found u = found' u) :
    settle found u = settle found' u := by
  funext d
  simp only [settle, prolonged?, h]

theorem status_of_calm (h : Calm found d u) :
    d.status u = ((handle found u d).1, (handle found u d).2.1, .ok (handle found u d).2.2) := by
  have hnoted : d.noted [u] = (d.note u).1 := rfl
  have hfits : Fits d.finding (d.noted [u]) u := by
    rw [hnoted]
    unfold Fits prolonged?
    rw [h.finding]
    exact h.fits
  have hquiet : ∀ v ∈ [u], Finding.Quiet (d.finding v) := by
    simpa [h.finding] using h.quiet
  have hn : ([u].map StatusUpdate.place).Nodup := List.nodup_singleton _
  have hbatch := batch_eq_sweep h.intact hn hquiet (by simpa using hfits)
  rw [hnoted] at hbatch
  simp only [status, hbatch, sweep, settle_congr h.finding, handle, List.flatMap_cons, List.flatMap_nil,
    List.append_nil, List.map_cons, List.map_nil]
  rfl

/-- Another report that is handled before leaves it calm. -/
theorem Calm.behind (h : Calm found d v) (hne : u.place ≠ v.place) : Calm found (handle found u d).1 v := by
  have hu := handle_local found u
  refine ⟨?_, (hu.result (note_local v) hne d).trans h.finding, h.quiet, ?_⟩
  · rcases hu.changes d with hd | ⟨p, ep, -, hd⟩ <;> rw [hd]
    · exact h.intact
    · exact h.intact
  · rw [hu.comm (note_local v) hne]
    exact (hu.fits hne _).2 h.fits

/-! ## Reports one by one -/

/-- The dispatch that is handed reports one by one, with the commands and the answer of each. -/
def singly (d : Dispatch α) (us : List StatusUpdate) :
    Dispatch α × List (List Post × Except DispatchError (StatusOutcome α)) :=
  sweep (fun u d => d.status u) d us

theorem singly_eq_sweep : ∀ {us : List StatusUpdate} {d : Dispatch α}, (us.map StatusUpdate.place).Nodup →
    (∀ u ∈ us, Calm found d u) → d.singly us = ((sweep (handle found) d us).1,
      (sweep (handle found) d us).2.map fun r => (r.1, .ok r.2))
  | [], _, _, _ => rfl
  | u :: us, d, hn, hcalm => by
    have hrest : ∀ v ∈ us, Calm found (handle found u d).1 v := fun v hv =>
      (hcalm v (List.mem_cons_of_mem _ hv)).behind (place_ne_of_nodup hn hv)
    have ih := singly_eq_sweep (List.nodup_cons.1 hn).2 hrest
    unfold singly at ih ⊢
    simp only [sweep, status_of_calm (hcalm u (List.mem_cons_self ..)), ih, List.map_cons]

/-- Reports of a batch of running controllers stay calm when each is handled on the dispatch as it was. -/
theorem calm_of_batch (hn : (us.map StatusUpdate.place).Nodup) (hquiet : ∀ v ∈ us, Finding.Quiet (d.finding v))
    (intact : (d.batch us).1.broken = false) : ∀ u ∈ us, Calm d.finding d u := by
  intro u hu
  have hb := broken_of_batch intact
  refine ⟨hb, rfl, hquiet u hu, ?_⟩
  -- the reports of the others are noted behind that of `u`, which the sums for `u` do not see
  obtain ⟨before, after, rfl⟩ := List.append_of_mem hu
  have hfits := fits_of_batch hb hn hquiet intact u hu
  have hfront : d.noted (before ++ u :: after) = (d.note u).1.noted (before ++ after) :=
    noted_perm d List.perm_middle hn
  have hother : u.place ∉ (before ++ after).map StatusUpdate.place :=
    (List.nodup_cons.1 ((List.perm_middle.map _).nodup_iff.1 hn)).1
  rw [hfront, noted, noteAll_eq_sweep] at hfits
  exact (fits_sweep note_local _ hother).1 hfits

/-- What a batch has in common with its reports handled one by one in some order: each report is answered the same and
makes the same commands, to its own endpoint, and the dispatch ends the same. -/
structure SameSingly (d : Dispatch α) (us us' : List StatusUpdate) (posts : StatusUpdate → List Post)
    (outcome : StatusUpdate → StatusOutcome α) : Prop where
  batch : (d.batch us).2 = (us.flatMap posts, .ok (us.map outcome))
  singly : d.singly us' = ((d.batch us).1, us'.map fun u => (posts u, .ok (outcome u)))
  own : ∀ u, ∀ p ∈ posts u, u.place = some p.endpoint
  /-- The commands to each endpoint, in their order. -/
  each : ∀ place, (us.flatMap posts).filter (fun p => p.endpoint = place) =
    (us'.flatMap posts).filter fun p => p.endpoint = place

/-- Reports for different endpoints of which none stops the dispatch may be handled together or one by one, in any
order. -/
theorem batch_singly (d : Dispatch α) {us us' : List StatusUpdate} (order : us.Perm us')
    (distinct : (us.map StatusUpdate.place).Nodup) (quiet : ∀ u ∈ us, Finding.Quiet (d.finding u))
    (intact : (d.batch us).1.broken = false) :
    ∃ (posts : StatusUpdate → List Post) (outcome : StatusUpdate → StatusOutcome α),
      SameSingly d us us' posts outcome := by
  have distinct' : (us'.map StatusUpdate.place).Nodup := (order.map _).nodup_iff.1 distinct
  have hhandle := handle_local d.finding
  have hbatch := batch_eq_sweep (broken_of_batch intact) distinct quiet
    (fits_of_batch (broken_of_batch intact) distinct quiet intact)
  -- the two passes of the batch, joined report by report
  have hjoined : sweep (settle d.finding) (d.noted us) us = sweep (handle d.finding) d us := by
    rw [noted, noteAll_eq_sweep, sweep_andThen note_local (settle_local d.finding) d distinct]
    rfl
  have hresults : ∀ u ∈ us, (settle d.finding u (d.noted us)).2 = (handle d.finding u d).2 := by
    have := congrArg Prod.snd hjoined
    rw [sweep_results (settle_local d.finding) _ distinct, sweep_results hhandle _ distinct] at this
    exact List.map_inj_left.1 this
  have hsingly := singly_eq_sweep distinct' fun u hu =>
    calm_of_batch distinct quiet intact u (order.mem_iff.2 hu)
  rw [← sweep_perm hhandle order distinct, sweep_results hhandle d distinct', List.map_map] at hsingly
  refine ⟨fun u => (handle d.finding u d).2.1, fun u => (handle d.finding u d).2.2, ?_, ?_, fun u => place_of_settle,
    filter_flatMap_perm order distinct fun u => place_of_settle⟩
  · rw [hbatch]
    exact Prod.ext (List.flatMap_congr fun u hu => congrArg Prod.fst (hresults u hu))
      (congrArg Except.ok (List.map_congr_left fun u hu => congrArg Prod.snd (hresults u hu)))
  · rw [hbatch, hjoined]
    exact hsingly

/-- Four controllers, of which the first is near its expire clock and the third has reported before. -/
def fourRunning : Dispatch ℚ :=
  ⟨true, true, 1, 1,
    [⟨0, 7, ⟨1, 2, 3⟩, .intact, ⟨0, 1000, 1000, 100⟩, .ofReference 0 0 1000, false⟩,
      ⟨1, 8, ⟨1, 2, 3⟩, .intact, ⟨0, 2000, 2000, 200⟩, .ofReference 0 0 2000, false⟩,
      ⟨2, 9, ⟨1, 2, 3⟩, .intact, ⟨500, 1000, 1000, 100⟩, .ofReference 0 0 1000, false⟩,
      ⟨3, 10, ⟨1, 2, 3⟩, .intact, ⟨0, 1000, 1000, 100⟩, .ofReference 0 0 1000, false⟩], none, false⟩

/-- One report extends an expire clock, one is recorded, one is stale and one is of another object. -/
theorem batch_singly_mixed :
    let near : StatusUpdate := ⟨some 0, ⟨7, true, 0, 950⟩⟩
    let far : StatusUpdate := ⟨some 1, ⟨8, true, 0, 1000⟩⟩
    let stale : StatusUpdate := ⟨some 2, ⟨9, true, 0, 400⟩⟩
    let other : StatusUpdate := ⟨some 3, ⟨11, true, 0, 950⟩⟩
    (∃ posts outcome, SameSingly fourRunning [near, far, stale, other] [other, far, near, stale] posts outcome) ∧
      (fourRunning.batch [near, far, stale, other]).2.1.map Post.endpoint = [0] := by
  intro near far stale other
  exact ⟨batch_singly fourRunning (by decide) (by decide) (by decide +kernel) (by decide +kernel), by decide +kernel⟩

end Dispatch

end PrinterMotion
