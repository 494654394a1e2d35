/-
Updates that are for different endpoints do not get in each other's way. Noting a report, and extending
an expire clock, look at one endpoint and change no other; so over updates for different endpoints their
results are those on the dispatch as it was before any of them, and the order does not change where it
ends.
-/
import PrinterMotion.Proofs.Trsync.Reports

namespace PrinterMotion

variable {α β γ : Type}

namespace Dispatch

/-- The dispatch with another endpoint at a place. -/
def put (d : Dispatch α) (place : Nat) (ep : Endpoint α) : Dispatch α :=
  { d with endpoints := d.endpoints.set place ep }

theorem put_comm (d : Dispatch α) {p q : Nat} (h : p ≠ q) (a b : Endpoint α) :
    (d.put p a).put q b = (d.put q b).put p a := by
  simp only [put, List.set_comm a b h]

theorem put_getElem?_ne (d : Dispatch α) {p q : Nat} (h : p ≠ q) (a : Endpoint α) :
    (d.put p a).endpoints[q]? = d.endpoints[q]? :=
  List.getElem?_set_ne h

/-! ## Operations on one endpoint -/

/-- An operation that changes at most the endpoint at a place, and does the same whatever the others are. -/
structure LocalAt (place : Option Nat) (op : Dispatch α → Dispatch α × β) : Prop where
  changes : ∀ d, (op d).1 = d ∨ ∃ p ep, place = some p ∧ (op d).1 = d.put p ep
  sees : ∀ d q ep, place ≠ some q → op (d.put q ep) = ((op d).1.put q ep, (op d).2)

variable {a b : Option Nat} {f : Dispatch α → Dispatch α × β} {g : Dispatch α → Dispatch α × γ}

theorem LocalAt.result (hf : LocalAt a f) (hg : LocalAt b g) (h : a ≠ b) (d : Dispatch α) :
    (g (f d).1).2 = (g d).2 := by
  rcases hf.changes d with hd | ⟨p, ep, rfl, hd⟩
  · rw [hd]
  · rw [hd, hg.sees d p ep (Ne.symm h)]

theorem LocalAt.comm (hf : LocalAt a f) (hg : LocalAt b g) (h : a ≠ b) (d : Dispatch α) :
    (g (f d).1).1 = (f (g d).1).1 := by
  rcases hf.changes d with hd | ⟨p, ep, rfl, hd⟩ <;> rcases hg.changes d with hd' | ⟨q, ep', rfl, hd'⟩
  · rw [hd, hd', hd]
  · rw [hd, hd', hf.sees d q ep' h, hd]
  · rw [hd, hd', hg.sees d p ep (Ne.symm h), hd', hd]
  · rw [hd, hd', hg.sees d p ep (Ne.symm h), hf.sees d q ep' h, hd, hd']
    exact put_comm d (fun hqp => h (congrArg some hqp.symm)) ep' ep

/-- One operation after the other at the same place. -/
theorem LocalAt.andThen (hf : LocalAt a f) (hg : LocalAt a g) : LocalAt a fun d => g (f d).1 := by
  constructor
  · intro d
    rcases hf.changes d with hd | ⟨p, ep, hp, hd⟩ <;> rcases hg.changes (f d).1 with hd' | ⟨q, ep', hq, hd'⟩
    · exact .inl (hd'.trans hd)
    · exact .inr ⟨q, ep', hq, by rw [hd', hd]⟩
    · exact .inr ⟨p, ep, hp, by rw [hd', hd]⟩
    · obtain rfl : p = q := Option.some.inj (hp.symm.trans hq)
      exact .inr ⟨p, ep', hp, by rw [hd', hd]; simp only [put, List.set_set]⟩
  · intro d q ep hq
    simp only [hf.sees d q ep hq, hg.sees _ q ep hq]

/-! ## Operations for a list of updates -/

/-- Makes the operation for each update, and collects the results. -/
def sweep (op : StatusUpdate → Dispatch α → Dispatch α × β) (d : Dispatch α) :
    List StatusUpdate → Dispatch α × List β
  | [] => (d, [])
  | u :: us => ((sweep op (op u d).1 us).1, (op u d).2 :: (sweep op (op u d).1 us).2)

variable {op : StatusUpdate → Dispatch α → Dispatch α × β}

/-- No result depends on the updates that came before. -/
theorem sweep_results (hop : ∀ u, LocalAt u.place (op u)) : ∀ {us : List StatusUpdate} (d : Dispatch α),
    (us.map StatusUpdate.place).Nodup → (sweep op d us).2 = us.map fun u => (op u d).2
  | [], _, _ => rfl
  | u :: us, d, h => by
    obtain ⟨hu, hus⟩ := List.nodup_cons.1 h
    rw [sweep, sweep_results hop _ hus, List.map_cons]
    refine congrArg _ (List.map_congr_left fun v hv => ?_)
    refine (hop u).result (hop v) (fun he => hu ?_) d
    rw [he]
    exact List.mem_map_of_mem hv

theorem sweep_eq_foldl : ∀ (us : List StatusUpdate) (d : Dispatch α),
    (sweep op d us).1 = us.foldl (fun d u => (op u d).1) d
  | [], _ => rfl
  | u :: us, d => sweep_eq_foldl us (op u d).1

/-- All orders of the updates end in the same dispatch. -/
theorem sweep_perm (hop : ∀ u, LocalAt u.place (op u)) {us us' : List StatusUpdate} (hp : us.Perm us')
    (h : (us.map StatusUpdate.place).Nodup) (d : Dispatch α) : (sweep op d us).1 = (sweep op d us').1 := by
  rw [sweep_eq_foldl, sweep_eq_foldl]
  refine hp.foldl_eq' (fun u hu v hv d => ?_) d
  by_cases huv : u = v
  · rw [huv]
  · refine (hop u).comm (hop v) (fun he => huv ?_) d
    exact List.inj_on_of_nodup_map h hu hv he

/-- An operation at another place does the same behind a sweep as in front of it. -/
theorem LocalAt.behind_sweep (hg : LocalAt a g) (hop : ∀ u, LocalAt u.place (op u)) :
    ∀ {us : List StatusUpdate} (d : Dispatch α), a ∉ us.map StatusUpdate.place →
      g (sweep op d us).1 = ((sweep op (g d).1 us).1, (g d).2)
  | [], _, _ => rfl
  | u :: us, d, h => by
    rw [List.map_cons, List.mem_cons, not_or] at h
    rw [sweep, sweep, hg.behind_sweep hop _ h.2, (hop u).result hg (Ne.symm h.1), (hop u).comm hg (Ne.symm h.1)]

/-- Two sweeps, the second behind the whole first, are one sweep that makes both operations for each update. -/
theorem sweep_andThen {next : StatusUpdate → Dispatch α → Dispatch α × γ} (hop : ∀ u, LocalAt u.place (op u))
    (hnext : ∀ u, LocalAt u.place (next u)) : ∀ {us : List StatusUpdate} (d : Dispatch α),
    (us.map StatusUpdate.place).Nodup →
      sweep next (sweep op d us).1 us = sweep (fun u d => next u (op u d).1) d us
  | [], _, _ => rfl
  | u :: us, d, h => by
    obtain ⟨hu, hus⟩ := List.nodup_cons.1 h
    -- the second operation of the first update moves in front of the first operations of all others
    simp only [sweep, (hnext u).behind_sweep hop (op u d).1 hu, sweep_andThen hop hnext _ hus]

/-! ## Noting -/

section

variable [Scalar α]

theorem note_local (u : StatusUpdate) : LocalAt u.place fun d : Dispatch α => d.note u := by
  constructor
  · intro d
    rcases note_cases d u with h | ⟨p, ep, hp, -, h⟩
    · exact .inl (by rw [h])
    · exact .inr ⟨p, (ep.note u.report).1, hp, by rw [h]; rfl⟩
  · intro d q ep hq
    show (d.put q ep).note u = _
    unfold note
    cases hu : u.place with
    | none => rfl
    | some p =>
      have hqp : q ≠ p := fun h => hq (by rw [hu, h])
      simp only [Option.bind_some, put_getElem?_ne d hqp]
      cases d.endpoints[p]? with
      | none => rfl
      | some at_ =>
        simp only [Option.map_some]
        by_cases hd : (d.active && d.canTrigger) = true
        · rw [if_pos hd, if_pos (show ((d.put q ep).active && (d.put q ep).canTrigger) = true from hd)]
          exact Prod.ext (put_comm d hqp ep _) rfl
        · rw [if_neg hd, if_neg (show ¬ ((d.put q ep).active && (d.put q ep).canTrigger) = true from hd)]

/-- What a report finds on the dispatch as it is. -/
def finding (d : Dispatch α) (u : StatusUpdate) : Finding α := (d.note u).2

theorem noteAll_eq_sweep : ∀ (us : List StatusUpdate) (d : Dispatch α),
    d.noteAll us = sweep (fun u d => d.note u) d us
  | [], _ => rfl
  | u :: us, d => by simp only [noteAll, sweep, noteAll_eq_sweep us]

theorem findings_eq (d : Dispatch α) {us : List StatusUpdate} (h : (us.map StatusUpdate.place).Nodup) :
    (d.noteAll us).2 = us.map d.finding := by
  rw [noteAll_eq_sweep]
  exact sweep_results note_local d h

theorem noteAll_perm (d : Dispatch α) {us us' : List StatusUpdate} (hp : us.Perm us')
    (h : (us.map StatusUpdate.place).Nodup) : (d.noteAll us).1 = (d.noteAll us').1 := by
  rw [noteAll_eq_sweep, noteAll_eq_sweep]
  exact sweep_perm note_local hp h d

end

/-! ## Extending -/

/-- What extending does at the place of an update that found a running controller. -/
def prolonged? (found : StatusUpdate → Finding α) (u : StatusUpdate) (d : Dispatch α) :
    Option (Nat × Endpoint α × List Post × StatusOutcome α) :=
  u.place.bind fun p => d.endpoints[p]?.bind fun ep => (Finding.running? (found u)).bind fun clock =>
    (ep.prolong? p clock).map fun r => (p, r)

/-- What extending does for an update, as long as all sums fit the counter. -/
def settle (found : StatusUpdate → Finding α) (u : StatusUpdate) (d : Dispatch α) :
    Dispatch α × List Post × StatusOutcome α :=
  match prolonged? found u d with
  | none => (d, [], Finding.outcome (found u))
  | some (p, ep, posts, outcome) => (d.put p ep, posts, outcome)

theorem prolonged?_eq_some {found : StatusUpdate → Finding α} {u : StatusUpdate} {d : Dispatch α} {p : Nat}
    {ep' : Endpoint α} {posts : List Post} {outcome : StatusOutcome α}
    (h : prolonged? found u d = some (p, ep', posts, outcome)) : u.place = some p ∧
      ∃ ep clock, d.endpoints[p]? = some ep ∧ found u = .running clock ∧
        ep.prolong? p clock = some (ep', posts, outcome) := by
  obtain ⟨q, hq, h⟩ := Option.bind_eq_some_iff.1 h
  obtain ⟨ep, hep, h⟩ := Option.bind_eq_some_iff.1 h
  obtain ⟨clock, hclock, h⟩ := Option.bind_eq_some_iff.1 h
  obtain ⟨r, hr, h⟩ := Option.map_eq_some_iff.1 h
  cases h
  refine ⟨hq, ep, clock, hep, ?_, hr⟩
  cases hf : found u <;> rw [hf] at hclock <;> cases hclock
  rfl

theorem prolonged?_put (found : StatusUpdate → Finding α) {u : StatusUpdate} {q : Nat} (hq : u.place ≠ some q)
    (d : Dispatch α) (ep : Endpoint α) : prolonged? found u (d.put q ep) = prolonged? found u d := by
  unfold prolonged?
  cases hu : u.place with
  | none => rfl
  | some p => simp only [Option.bind_some, put_getElem?_ne d (fun h : q = p => hq (by rw [hu, h]))]

theorem settle_local (found : StatusUpdate → Finding α) (u : StatusUpdate) :
    LocalAt u.place (settle found u) := by
  constructor
  · intro d
    unfold settle
    split
    · exact .inl rfl
    · rename_i p ep posts outcome h
      exact .inr ⟨p, ep, (prolonged?_eq_some h).1, rfl⟩
  · intro d q ep hq
    unfold settle
    rw [prolonged?_put found hq]
    split
    · rfl
    · rename_i p ep' posts outcome h
      rw [put_comm d fun hqp => hq (by rw [(prolonged?_eq_some h).1, hqp])]

/-- The commands of an extension are to the endpoint at the place of the update. -/
theorem place_of_settle {found : StatusUpdate → Finding α} {u : StatusUpdate} {d : Dispatch α} :
    ∀ p ∈ (settle found u d).2.1, u.place = some p.endpoint := by
  intro p hp
  unfold settle at hp
  split at hp
  · cases hp
  · rename_i place ep' posts outcome h
    obtain ⟨hplace, ep, clock, -, -, hr⟩ := prolonged?_eq_some h
    rw [hplace, Endpoint.endpoint_of_prolong? hr p hp]

/-- The sums for an update that found a running controller fit the counter. -/
def Fits (found : StatusUpdate → Finding α) (d : Dispatch α) (u : StatusUpdate) : Prop :=
  ∀ clock, found u = .running clock → (prolonged? found u d).isSome = true

/-- What happens at other places does not change that. -/
theorem LocalAt.fits {found : StatusUpdate → Finding α} {u : StatusUpdate} (hf : LocalAt a f) (h : a ≠ u.place)
    (d : Dispatch α) : Fits found (f d).1 u ↔ Fits found d u := by
  rcases hf.changes d with hd | ⟨p, ep, rfl, hd⟩
  · rw [hd]
  · unfold Fits
    rw [hd, prolonged?_put found (Ne.symm h)]

theorem fits_sweep {found : StatusUpdate → Finding α} {u : StatusUpdate} (hop : ∀ v, LocalAt v.place (op v)) :
    ∀ {us : List StatusUpdate} (d : Dispatch α), u.place ∉ us.map StatusUpdate.place →
      (Fits found (sweep op d us).1 u ↔ Fits found d u)
  | [], _, _ => Iff.rfl
  | v :: us, d, h => by
    rw [List.map_cons, List.mem_cons, not_or] at h
    rw [sweep, fits_sweep hop _ h.2, (hop v).fits (Ne.symm h.1)]

theorem extendAll_cons {found : StatusUpdate → Finding α} {d : Dispatch α} {u : StatusUpdate}
    (hfound : ∀ clock, found u = .running clock → ∃ p, u.place = some p ∧ p < d.endpoints.length)
    (us : List StatusUpdate) (fs : List (Finding α)) :
    (Fits found d u → d.extendAll (u :: us) (found u :: fs) =
      (((settle found u d).1.extendAll us fs).1,
        (settle found u d).2.1 ++ ((settle found u d).1.extendAll us fs).2.1,
        ((settle found u d).1.extendAll us fs).2.2.map ((settle found u d).2.2 :: ·))) ∧
    (¬ Fits found d u → (d.extendAll (u :: us) (found u :: fs)).1.broken = true) := by
  by_cases hrun : ∃ clock, found u = .running clock
  · obtain ⟨clock, hf⟩ := hrun
    obtain ⟨p, hp, hlt⟩ := hfound clock hf
    have hep : d.endpoints[p]? = some d.endpoints[p] := List.getElem?_eq_getElem hlt
    have hprolonged : prolonged? found u d = (d.endpoints[p].prolong? p clock).map fun r => (p, r) := by
      simp only [prolonged?, hp, hep, hf, Option.bind_some, Finding.running?]
    have hone := extendOne_eq hep clock
    unfold Fits settle
    rw [hprolonged, hf, extendAll, hp, Option.getD_some, hone]
    cases hr : d.endpoints[p].prolong? p clock with
    | none => exact ⟨fun h => absurd (h clock rfl) (by simp), fun _ => rfl⟩
    | some r => exact ⟨fun _ => rfl, fun h => absurd (fun _ _ => rfl) h⟩
  · have hfits : Fits found d u := fun clock hf => absurd ⟨clock, hf⟩ hrun
    have hsettle : settle found u d = (d, [], Finding.outcome (found u)) := by
      have : prolonged? found u d = none := by
        cases h : prolonged? found u d with
        | none => rfl
        | some r =>
          obtain ⟨-, -, clock, -, hf, -⟩ := prolonged?_eq_some h
          exact absurd ⟨clock, hf⟩ hrun
      rw [settle, this]
    refine ⟨fun _ => ?_, fun h => absurd hfits h⟩
    rw [hsettle, extendAll]
    · rfl
    · exact fun clock hf => hrun ⟨clock, hf⟩

variable {found : StatusUpdate → Finding α}

/-- Every running controller was found at a registered endpoint. -/
def FoundAtPlaces (found : StatusUpdate → Finding α) (us : List StatusUpdate) (n : Nat) : Prop :=
  ∀ u ∈ us, ∀ clock, found u = .running clock → ∃ p, u.place = some p ∧ p < n

theorem settle_length (d : Dispatch α) (u : StatusUpdate) :
    (settle found u d).1.endpoints.length = d.endpoints.length := by
  rcases (settle_local found u).changes d with h | ⟨p, ep, -, h⟩
  · rw [h]
  · rw [h, put, List.length_set]

theorem place_ne_of_nodup {u v : StatusUpdate} {us : List StatusUpdate}
    (h : ((u :: us).map StatusUpdate.place).Nodup) (hv : v ∈ us) : u.place ≠ v.place := by
  intro he
  refine (List.nodup_cons.1 h).1 ?_
  show u.place ∈ us.map StatusUpdate.place
  rw [he]
  exact List.mem_map_of_mem hv

/-- Where all sums fit the counter, extending is a sweep. -/
theorem extendAll_eq_sweep : ∀ {us : List StatusUpdate} {d : Dispatch α},
    (us.map StatusUpdate.place).Nodup → FoundAtPlaces found us d.endpoints.length →
    (∀ u ∈ us, Fits found d u) → d.extendAll us (us.map found) =
      ((sweep (settle found) d us).1, (sweep (settle found) d us).2.flatMap Prod.fst,
        .ok ((sweep (settle found) d us).2.map Prod.snd))
  | [], d, _, _, _ => rfl
  | u :: us, d, hn, hat, hfits => by
    have hcons := (extendAll_cons (hat u (List.mem_cons_self ..)) us (us.map found)).1
      (hfits u (List.mem_cons_self ..))
    have ih := extendAll_eq_sweep (d := (settle found u d).1) (List.nodup_cons.1 hn).2
      (by rw [settle_length]; exact fun v hv => hat v (List.mem_cons_of_mem _ hv))
      (fun v hv => ((settle_local found u).fits (place_ne_of_nodup hn hv) d).2 (hfits v (List.mem_cons_of_mem _ hv)))
    rw [List.map_cons, hcons, ih]
    rfl

/-- Where extending does not break the dispatch, all sums fit the counter. -/
theorem fits_of_extendAll : ∀ {us : List StatusUpdate} {d : Dispatch α},
    (us.map StatusUpdate.place).Nodup → FoundAtPlaces found us d.endpoints.length →
    (d.extendAll us (us.map found)).1.broken = false → ∀ u ∈ us, Fits found d u
  | [], _, _, _, _ => by simp
  | u :: us, d, hn, hat, hb => by
    have hcons := extendAll_cons (hat u (List.mem_cons_self ..)) us (us.map found)
    -- what is left unextended behind a sum too large does not matter, as the dispatch is broken for good
    have hu : Fits found d u := by
      by_contra h
      rw [List.map_cons, hcons.2 h] at hb
      cases hb
    rw [List.map_cons, hcons.1 hu] at hb
    have ih := fits_of_extendAll (d := (settle found u d).1) (List.nodup_cons.1 hn).2
      (by rw [settle_length]; exact fun v hv => hat v (List.mem_cons_of_mem _ hv)) hb
    intro v hv
    rcases List.mem_cons.1 hv with rfl | hv
    · exact hu
    · exact ((settle_local found u).fits (place_ne_of_nodup hn hv) d).1 (ih v hv)

/-! ## Commands to one endpoint -/

theorem filter_place_perm {us us' : List StatusUpdate} (hp : us.Perm us')
    (h : (us.map StatusUpdate.place).Nodup) (k : Nat) :
    us.filter (fun u => u.place = some k) = us'.filter fun u => u.place = some k := by
  -- at most one update is to this endpoint, and two orders of one update are the same list
  have hle : (us.filter fun u => u.place = some k).length ≤ 1 := by
    have := List.nodup_iff_count_le_one.1 h (some k)
    rw [List.count, List.countP_map, List.countP_eq_length_filter] at this
    refine le_of_eq_of_le (congrArg List.length (List.filter_congr fun u _ => ?_)) this
    by_cases hu : u.place = some k <;> simp [hu]
  have hf := hp.filter fun u => decide (u.place = some k)
  cases hl : us.filter fun u => u.place = some k with
  | nil => rw [hl] at hf; exact (List.nil_perm.1 hf).symm
  | cons u rest =>
    rw [hl] at hle hf
    obtain rfl : rest = [] := List.length_eq_zero_iff.1 (by simpa using hle)
    exact List.singleton_perm.1 hf

/-- Each endpoint is handed the same whatever the order of the updates, if those of an update are to its
own endpoint. -/
theorem filter_flatMap_perm {us us' : List StatusUpdate} (hp : us.Perm us')
    (h : (us.map StatusUpdate.place).Nodup) {posts : StatusUpdate → List Post}
    (hposts : ∀ u, ∀ p ∈ posts u, u.place = some p.endpoint) (k : Nat) :
    (us.flatMap posts).filter (fun p => p.endpoint = k) = (us'.flatMap posts).filter fun p => p.endpoint = k := by
  have own : ∀ us : List StatusUpdate, (us.flatMap posts).filter (fun p => p.endpoint = k) =
      (us.filter fun u => u.place = some k).flatMap posts := by
    intro us
    induction us with
    | nil => rfl
    | cons u us ih =>
      rw [List.flatMap_cons, List.filter_append, ih, List.filter_cons]
      by_cases hu : u.place = some k
      · rw [if_pos (by simpa using hu), List.flatMap_cons, List.filter_eq_self.2]
        intro p hp
        have := hposts u p hp
        rw [hu] at this
        simpa using (Option.some.inj this).symm
      · rw [if_neg (by simpa using hu), List.filter_eq_nil_iff.2, List.nil_append]
        intro p hp
        have := hposts u p hp
        simp only [decide_eq_true_eq]
        rintro rfl
        exact hu this
  rw [own, own, filter_place_perm hp h]

end Dispatch

end PrinterMotion
