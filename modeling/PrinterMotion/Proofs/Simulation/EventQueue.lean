/-
The order of pending events. They are kept by time, and those of one time in the order in which they were
scheduled: an event that is scheduled behind all others takes its place behind those that are not later.
-/
import Mathlib.Tactic
import PrinterMotion.Simulation.EventQueue

namespace PrinterMotion

variable {β γ : Type}

/-! ## The order of events -/

/-- An event comes earlier, or at the same time but was scheduled before. -/
def Scheduled.Before (e f : Scheduled β) : Prop := e.time < f.time ∨ e.time = f.time ∧ e.number < f.number

theorem Scheduled.Before.asymm {e f : Scheduled β} (h : e.Before f) : ¬ f.Before e := by
  rintro (h' | ⟨h', hn'⟩) <;> rcases h with h | ⟨h, hn⟩
  · exact Nat.lt_asymm h h'
  · exact absurd h (Nat.ne_of_gt h')
  · exact absurd h' (Nat.ne_of_gt h)
  · exact Nat.lt_asymm hn hn'

theorem Scheduled.Before.le {e f : Scheduled β} (h : e.Before f) : e.time ≤ f.time := by
  rcases h with h | ⟨h, -⟩
  · exact Nat.le_of_lt h
  · exact Nat.le_of_eq h

namespace EventQueue

/-! ## Insertion -/

theorem insert_perm (e : Scheduled β) : ∀ l : List (Scheduled β), (insert e l).Perm (e :: l)
  | [] => .refl _
  | f :: rest => by
    rw [insert]
    split
    · exact .refl _
    · exact ((insert_perm e rest).cons f).trans (.swap e f rest)

/-- Events in the order of their times. -/
def Sorted (pending : List (Scheduled β)) : Prop := pending.Pairwise fun e f => e.time ≤ f.time

theorem mem_insert {e f : Scheduled β} {l : List (Scheduled β)} : f ∈ insert e l ↔ f = e ∨ f ∈ l :=
  (insert_perm e l).mem_iff.trans List.mem_cons

theorem sorted_insert (e : Scheduled β) : ∀ {l : List (Scheduled β)}, Sorted l → Sorted (insert e l)
  | [], _ => List.pairwise_singleton ..
  | f :: rest, h => by
    obtain ⟨hf, hrest⟩ := List.pairwise_cons.1 h
    rw [insert]
    split
    · rename_i hlt
      refine List.pairwise_cons.2 ⟨fun g hg => ?_, h⟩
      rcases List.mem_cons.1 hg with rfl | hg
      · exact Nat.le_of_lt hlt
      · exact Nat.le_trans (Nat.le_of_lt hlt) (hf g hg)
    · rename_i hle
      refine List.pairwise_cons.2 ⟨fun g hg => ?_, sorted_insert e hrest⟩
      rcases mem_insert.1 hg with rfl | hg
      · exact Nat.le_of_not_lt hle
      · exact hf g hg

theorem filterMap_insert_none {e : Scheduled β} {f : Scheduled β → Option γ} (hf : f e = none) :
    ∀ l : List (Scheduled β), (insert e l).filterMap f = l.filterMap f
  | [] => by simp [insert, hf]
  | g :: rest => by
    rw [insert]
    split
    · rw [List.filterMap_cons_none hf]
    · rw [List.filterMap_cons, List.filterMap_cons, filterMap_insert_none hf rest]

/-- An event that is not earlier than any of its kind lines up behind them. -/
theorem filterMap_insert_some {e : Scheduled β} {f : Scheduled β → Option γ} {c : γ} (hf : f e = some c) :
    ∀ {l : List (Scheduled β)}, Sorted l → (∀ g ∈ l, (f g).isSome → g.time ≤ e.time) →
      (insert e l).filterMap f = l.filterMap f ++ [c]
  | [], _, _ => by simp [insert, hf]
  | g :: rest, hs, hlast => by
    obtain ⟨hg, hrest⟩ := List.pairwise_cons.1 hs
    rw [insert]
    split
    · rename_i hlt
      -- all that follow are later than the new one, so none of them is of its kind
      have hnone : (g :: rest).filterMap f = [] := by
        refine List.filterMap_eq_nil_iff.2 fun a ha => ?_
        have hle : g.time ≤ a.time := by
          rcases List.mem_cons.1 ha with rfl | ha
          · exact le_rfl
          · exact hg a ha
        by_contra hne
        exact Nat.not_lt.2 (hle.trans (hlast a ha (Option.isSome_iff_ne_none.2 hne))) hlt
      rw [List.filterMap_cons_some hf, hnone]
      rfl
    · have ih := filterMap_insert_some hf hrest fun a ha => hlast a (List.mem_cons_of_mem _ ha)
      rw [List.filterMap_cons, List.filterMap_cons, ih]
      split <;> simp

/-! ## The order of pending events -/

/-- Pending events are in their order, and each has been scheduled already. -/
structure Ordered (q : EventQueue β) : Prop where
  sorted : q.pending.Pairwise Scheduled.Before
  fresh : ∀ e ∈ q.pending, e.number < q.nextNumber

theorem ordered_empty : (empty : EventQueue β).Ordered := ⟨List.Pairwise.nil, by simp [empty]⟩

/-- An event scheduled behind all others takes its place in their order. -/
theorem before_insert {e : Scheduled β} : ∀ {l : List (Scheduled β)}, l.Pairwise Scheduled.Before →
    (∀ f ∈ l, f.number < e.number) → (insert e l).Pairwise Scheduled.Before
  | [], _, _ => List.pairwise_singleton ..
  | f :: rest, hs, hn => by
    obtain ⟨hf, hrest⟩ := List.pairwise_cons.1 hs
    rw [insert]
    split
    · rename_i hlt
      refine List.pairwise_cons.2 ⟨fun g hg => .inl ?_, hs⟩
      rcases List.mem_cons.1 hg with rfl | hg
      · exact hlt
      · exact Nat.lt_of_lt_of_le hlt (hf g hg).le
    · rename_i hle
      refine List.pairwise_cons.2 ⟨fun g hg => ?_, before_insert hrest fun g hg => hn g (List.mem_cons_of_mem _ hg)⟩
      rcases mem_insert.1 hg with rfl | hg
      · rcases Nat.lt_or_eq_of_le (Nat.le_of_not_lt hle) with hlt | heq
        · exact .inl hlt
        · exact .inr ⟨heq, hn f List.mem_cons_self⟩
      · exact hf g hg

theorem Ordered.schedule {q : EventQueue β} (h : q.Ordered) (time : Instant) (event : β) :
    (q.schedule time event).Ordered := by
  refine ⟨before_insert h.sorted h.fresh, fun f hf => ?_⟩
  rcases mem_insert.1 hf with rfl | hf
  · exact Nat.lt_succ_self _
  · exact Nat.lt_succ_of_lt (h.fresh f hf)

theorem Ordered.sublist {q : EventQueue β} (h : q.Ordered) {pending : List (Scheduled β)}
    (hp : pending.Sublist q.pending) : ({ q with pending } : EventQueue β).Ordered :=
  ⟨h.sorted.sublist hp, fun e he => h.fresh e (hp.subset he)⟩

end EventQueue

end PrinterMotion
