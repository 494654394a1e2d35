/-
Room in the counter of a clock. A report that has fallen behind is extended to a clock that is not ahead of the
one that its controller read, or to one right below the end of the counter, which is past every expire
clock as long as there is room. So a batch that finds running controllers only extends their expire clocks
from clocks that they have read, and never fails for want of room.
-/
import PrinterMotion.Proofs.Trsync.Expected

namespace PrinterMotion

variable {α : Type}

/-- An extended reading is not ahead of the clock that was read, or it has gone round below zero. -/
theorem ClockEstimate.extend_low_le {ce : ClockEstimate α} {c : UInt64} (h : ce.lastClock.toNat < c.toNat + 2 ^ 31) :
    (ce.extend (Clock.low c)).toNat ≤ c.toNat ∨ 2 ^ 64 ≤ (ce.extend (Clock.low c)).toNat + 2 ^ 31 := by
  have hlast := ce.lastClock.toNat_lt
  have hc := c.toNat_lt
  rw [extend, Clock.toNat_shift, Clock.toNat_low, Clock.toNat_low]
  simp only [Int.bmod, UInt32.size]
  omega

namespace Endpoint

/-- There is room for an endpoint: for all that it may add to a clock up to `bound`, where the clock that
its controller has read next is not far behind the largest one known. -/
structure Ample (ep : Endpoint α) (bound : Nat) (next : UInt64) : Prop where
  next_le : next.toNat ≤ bound
  near : ep.clock.lastClock.toNat < next.toNat + 2 ^ 31
  expire_le : ep.window.expire.toNat ≤ bound + ep.window.expireTicks.toNat
  expireTicks : bound + ep.window.expireTicks.toNat + 2 ^ 31 < 2 ^ 64
  minExtend : bound + ep.window.minExtend.toNat < 2 ^ 64

/-- A running controller is found at a clock that it has read. -/
theorem Ample.note [Scalar α] {ep : Endpoint α} {bound : Nat} {next : UInt64} (h : ep.Ample bound next)
    {r : StatusReport} (hr : r.canTrigger = true → r.clock = Clock.low next)
    (hquiet : Dispatch.Finding.Quiet (ep.note r).2) :
    (ep.note r).1.Ample bound next ∧ ∀ clock, (ep.note r).2 = .running clock → clock.toNat ≤ bound := by
  simp only [Endpoint.note] at hquiet ⊢
  split
  · exact ⟨h, fun clock hf => by cases hf⟩
  rename_i hnew
  rw [if_neg hnew] at hquiet
  cases hcan : r.canTrigger with
  | false => simp [hcan, Dispatch.Finding.Quiet] at hquiet
  | true =>
    by_cases hexpire : ep.window.expire < ep.clock.extend r.clock
    · simp [hcan, hexpire, Dispatch.Finding.Quiet] at hquiet
    · -- a clock that has gone round would be past the expire clock
      have hle : (ep.clock.extend r.clock).toNat ≤ next.toNat := by
        rw [UInt64.lt_iff_toNat_lt] at hexpire
        have hexpire_le := h.expire_le
        have hroom := h.expireTicks
        rw [hr hcan] at hexpire ⊢
        rcases ClockEstimate.extend_low_le h.near with hle | hround <;> omega
      have hnext := h.next_le
      refine ⟨⟨h.next_le, ?_, h.expire_le, h.expireTicks, h.minExtend⟩, fun clock hf => ?_⟩
      · have hnear := h.near
        rw [ClockEstimate.toNat_observe]
        omega
      · simp only [hexpire, Bool.not_true, Bool.false_eq_true, if_false, Finding.running.injEq] at hf
        rw [← hf]
        omega

/-- The sums of clocks fit, whether or not the expire clock is extended. -/
theorem Ample.prolong {ep : Endpoint α} {bound : Nat} {next clock : UInt64} (h : ep.Ample bound next)
    (hclock : clock.toNat ≤ bound) (place : Nat) :
    ∃ ep' posts outcome, ep.prolong? place clock = some (ep', posts, outcome) ∧ ep'.Ample bound next ∧
      posts.length ≤ 1 := by
  have hticks := h.expireTicks
  have hextend := h.minExtend
  have hwants : clock.toNat + ep.window.minExtend.toNat < UInt64.size := by
    simp only [UInt64.size]
    omega
  have hfits : clock.toNat + ep.window.expireTicks.toNat < UInt64.size := by
    simp only [UInt64.size]
    omega
  unfold prolong? wantsExtension? extend? Clock.add?
  rw [if_pos hwants, if_pos hfits, Option.map_some, Option.map_some]
  split
  · rename_i hnone
    cases hnone
  · exact ⟨ep, [], .recorded, rfl, h, Nat.zero_le 1⟩
  · refine ⟨_, _, _, rfl, ⟨h.next_le, h.near, ?_, h.expireTicks, h.minExtend⟩, Nat.le_refl 1⟩
    show (clock + ep.window.expireTicks).toNat ≤ bound + ep.window.expireTicks.toNat
    rw [UInt64.toNat_add, Nat.mod_eq_of_lt hfits]
    omega

end Endpoint

namespace Dispatch

/-- There is room for all endpoints. -/
def Ample (d : Dispatch α) (bound : Nat → Nat) (next : Nat → UInt64) : Prop :=
  ∀ (place : Nat) (ep : Endpoint α), d.endpoints[place]? = some ep → ep.Ample (bound place) (next place)

/-- A report of a running controller tells the clock that it has read. -/
def Tells (u : StatusUpdate) (next : Nat → UInt64) : Prop :=
  ∀ place, u.place = some place → u.report.canTrigger = true → u.report.clock = Clock.low (next place)

/-- A finding of a running controller is at a clock up to the bound of its endpoint. -/
def Bounded (bound : Nat → Nat) (u : StatusUpdate) (f : Finding α) : Prop :=
  ∀ clock, f = .running clock → clock.toNat ≤ bound (u.place.getD 0)

theorem Ample.set {d : Dispatch α} {bound : Nat → Nat} {next : Nat → UInt64} (h : d.Ample bound next)
    {place : Nat} {ep : Endpoint α} (hep : ep.Ample (bound place) (next place)) :
    Ample { d with endpoints := d.endpoints.set place ep } bound next := by
  intro q e he
  rw [List.getElem?_set] at he
  split at he
  · rename_i hq
    subst hq
    split at he
    · cases he
      exact hep
    · cases he
  · exact h q e he

theorem Ample.extendOne {d : Dispatch α} {bound : Nat → Nat} {next : Nat → UInt64} (h : d.Ample bound next)
    {place : Nat} {clock : UInt64} (hclock : clock.toNat ≤ bound place) :
    ∃ d' posts outcome, d.extendOne place clock = (d', posts, .ok outcome) ∧ d'.Ample bound next ∧
      posts.length ≤ 1 := by
  cases hep : d.endpoints[place]? with
  | none => exact ⟨d, [], .recorded, by simp [Dispatch.extendOne, hep], h, Nat.zero_le 1⟩
  | some ep =>
    obtain ⟨ep', posts, outcome, hprolong, hample, hlen⟩ := (h place ep hep).prolong hclock place
    exact ⟨_, posts, outcome, by rw [extendOne_eq hep, hprolong], h.set hample, hlen⟩

theorem Ample.extendAll {bound : Nat → Nat} {next : Nat → UInt64} {us : List StatusUpdate}
    {fs : List (Finding α)} {d : Dispatch α} (h : d.Ample bound next) (hfs : List.Forall₂ (Bounded bound) us fs) :
    ∃ d' posts outcomes, d.extendAll us fs = (d', posts, .ok outcomes) ∧ d'.Ample bound next ∧
      posts.length ≤ us.length := by
  induction hfs generalizing d with
  | nil => exact ⟨d, [], [], rfl, h, Nat.le_refl 0⟩
  | @cons u f us fs hf _ ih =>
    by_cases hr : ∃ clock, f = .running clock
    · obtain ⟨clock, rfl⟩ := hr
      obtain ⟨d₁, posts, outcome, hone, h₁, hlen⟩ := h.extendOne (hf clock rfl)
      obtain ⟨d', later, outcomes, hall, h', hlater⟩ := ih h₁
      refine ⟨d', posts ++ later, outcome :: outcomes, ?_, h', ?_⟩
      · simp only [Dispatch.extendAll, hone, hall, Except.map]
      · rw [List.length_append, List.length_cons]
        omega
    · obtain ⟨d', posts, outcomes, hall, h', hlen⟩ := ih h
      refine ⟨d', posts, Finding.outcome f :: outcomes, ?_, h', Nat.le_succ_of_le hlen⟩
      cases f with
      | running clock => exact absurd ⟨clock, rfl⟩ hr
      | _ => simp only [Dispatch.extendAll, hall, Except.map]

variable [Scalar α]

theorem Ample.note {d : Dispatch α} {bound : Nat → Nat} {next : Nat → UInt64} (h : d.Ample bound next)
    {u : StatusUpdate} (hu : Tells u next) (hquiet : Finding.Quiet (d.note u).2) :
    (d.note u).1.Ample bound next ∧ Bounded bound u (d.note u).2 := by
  rcases note_cases d u with hn | ⟨place, ep, hplace, hep, hn⟩
  · rw [hn]
    exact ⟨h, fun clock hf => by cases hf⟩
  · rw [hn] at hquiet ⊢
    obtain ⟨hample, hbound⟩ := (h place ep hep).note (hu place hplace) hquiet
    refine ⟨h.set hample, fun clock hf => ?_⟩
    rw [hplace]
    exact hbound clock hf

theorem Ample.noteAll {bound : Nat → Nat} {next : Nat → UInt64} : ∀ {us : List StatusUpdate} {d : Dispatch α},
    d.Ample bound next → (∀ u ∈ us, Tells u next) → (∀ f ∈ (d.noteAll us).2, Finding.Quiet f) →
      (d.noteAll us).1.Ample bound next ∧ List.Forall₂ (Bounded bound) us (d.noteAll us).2
  | [], _, h, _, _ => ⟨h, .nil⟩
  | u :: us, d, h, hus, hquiet => by
    obtain ⟨hu, hus⟩ := List.forall_mem_cons.1 hus
    rw [noteAll_cons] at hquiet ⊢
    obtain ⟨hfirst, hrest⟩ := List.forall_mem_cons.1 hquiet
    obtain ⟨hnoted, hbound⟩ := h.note hu hfirst
    obtain ⟨hall, hbounds⟩ := hnoted.noteAll hus hrest
    exact ⟨hall, .cons hbound hbounds⟩

omit [Scalar α] in
theorem tell_length (reason : Reason) : ∀ (place : Nat) (eps : List (Endpoint α)),
    (tell reason place eps).2.length ≤ eps.length
  | _, [] => Nat.le_refl 0
  | place, ep :: rest => by
    have ih := tell_length reason (place + 1) rest
    rw [tell_cons]
    split
    · exact Nat.le_succ_of_le ih
    · exact Nat.succ_le_succ ih

omit [Scalar α] in
theorem abort_length (d : Dispatch α) (error : DispatchError) : (d.abort error).2.1.length ≤ d.endpoints.length :=
  tell_length Reason.commsTimeout 0 d.endpoints

omit [Scalar α] in
theorem fire_length (d : Dispatch α) (t : Trip α) : (d.fire t).2.1.length ≤ d.endpoints.length := by
  have htell := tell_length d.reason 0 (d.endpoints.modify t.place fun ep => { ep with notified := true })
  rw [List.length_modify] at htell
  exact htell

/-- Reports that reach a dispatch with room do not break it, and there is room afterwards. -/
theorem Ample.batch {d : Dispatch α} {bound : Nat → Nat} {next : Nat → UInt64} (h : d.Ample bound next)
    (hb : d.broken = false) {us : List StatusUpdate} (hus : ∀ u ∈ us, Tells u next) :
    (d.batch us).2.2 ≠ .error .clockOverflow ∧ (d.batch us).2.1.length ≤ us.length + d.endpoints.length ∧
      ((d.batch us).1.active = true → (d.batch us).1.Ample bound next) := by
  have hlen := noteAll_length us d
  have hsame := (noteAll_kept us d).length
  have hnoted : (∀ f ∈ (d.noteAll us).2, Finding.Quiet f) → _ := h.noteAll hus
  obtain ⟨d', fs, hn⟩ : ∃ d' fs, d.noteAll us = (d', fs) := ⟨_, _, rfl⟩
  simp only [hn] at hlen hsame hnoted
  have aborts : ∀ l ∈ lapses us fs, (d'.abort l.error).2.2 ≠ .error .clockOverflow ∧
      (d'.abort l.error).2.1.length ≤ us.length + d.endpoints.length ∧
      ((d'.abort l.error).1.active = true → (d'.abort l.error).1.Ample bound next) := by
    intro l hl
    obtain ⟨-, u, clock, expire, -, -, he⟩ := exists_of_mem_lapses us fs l hl
    refine ⟨?_, ?_, fun ha => by cases ha⟩
    · rw [he]
      exact fun h => by cases h
    · have hposts := abort_length d' l.error
      omega
  simp only [Dispatch.batch, hb, hn, Bool.false_eq_true, if_false]
  cases htrip : firstBy Trip.earlier (trips 0 us fs) with
  | some t =>
    cases hlapse : (firstBy (fun a b : Lapse α => Scalar.totalLt a.expiredAt b.expiredAt) (lapses us fs)).filter
        fun l => l.expiredAt < t.hostTime with
    | some l =>
      simpa only [hlapse] using aborts l (firstBy_mem (Option.filter_eq_some_iff.1 hlapse).1)
    | none =>
      simp only [hlapse]
      have hposts : d'.endpoints.length ≤ us.length + d.endpoints.length := by omega
      exact ⟨by simp, (fire_length d' t).trans hposts, fun ha => by cases ha⟩
  | none =>
    cases hlapse : firstBy (fun a b : Lapse α => Scalar.totalLt a.expiredAt b.expiredAt) (lapses us fs) with
    | some l => exact aborts l (firstBy_mem hlapse)
    | none =>
      obtain ⟨hample, hbounds⟩ := hnoted (quiet_of_nil hlen (firstBy_eq_none.1 htrip) (firstBy_eq_none.1 hlapse))
      obtain ⟨d'', posts, outcomes, hall, h', hposts⟩ := hample.extendAll hbounds
      simp only [hall]
      exact ⟨by simp, hposts.trans (Nat.le_add_right _ _), fun _ => h'⟩

end Dispatch

end PrinterMotion
