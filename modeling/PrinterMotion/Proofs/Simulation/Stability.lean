/-
The event queue is a stable priority queue. However calls that schedule events and calls that take them alternate,
each event comes out once, behind all that are earlier and behind those of its own time that were scheduled before.
A heap ordered by time and number answers all calls alike.
-/
import Mathlib.Data.List.Sort
import Mathlib.Data.Multiset.AddSub
import PrinterMotion.Proofs.Simulation.EventQueue

namespace PrinterMotion

variable {β : Type}

/-- How two events compare: by time, and those of one time by number. -/
def Scheduled.order (e f : Scheduled β) : Ordering := (compare e.time f.time).then (compare e.number f.number)

theorem Scheduled.order_eq_gt {e f : Scheduled β} : e.order f = .gt ↔ f.Before e := by
  unfold order Before
  rw [Ordering.then_eq_gt, Nat.compare_eq_gt, Nat.compare_eq_eq, Nat.compare_eq_gt]
  simp [eq_comm]

/-- An event does not come after another. -/
def Scheduled.NotAfter (e f : Scheduled β) : Prop := e.order f ≠ .gt

instance : DecidableRel (Scheduled.NotAfter (β := β)) := fun e f => inferInstanceAs (Decidable (e.order f ≠ .gt))

theorem Scheduled.notAfter_iff {e f : Scheduled β} :
    e.NotAfter f ↔ e.time < f.time ∨ e.time = f.time ∧ e.number ≤ f.number := by
  unfold NotAfter
  rw [ne_eq, order_eq_gt, Before]
  unfold Instant
  omega

theorem Scheduled.notAfter_refl (e : Scheduled β) : e.NotAfter e := notAfter_iff.2 (.inr ⟨rfl, le_rfl⟩)

instance : Std.Total (Scheduled.NotAfter (β := β)) := ⟨fun e f => by
  rw [Scheduled.notAfter_iff, Scheduled.notAfter_iff]
  unfold Instant
  omega⟩

instance : IsTrans (Scheduled β) Scheduled.NotAfter := ⟨fun e f g => by
  rw [Scheduled.notAfter_iff, Scheduled.notAfter_iff, Scheduled.notAfter_iff]
  unfold Instant
  omega⟩

namespace EventQueue

/-! ## Calls -/

/-- A call of a queue. -/
inductive Call (β : Type) where
  | schedule (time : Instant) (event : β)
  | pop
  | popIf (accept : Scheduled β → Bool)

/-- The event that is returned by a call, and the queue behind it. -/
def perform (q : EventQueue β) : Call β → Option (Scheduled β) × EventQueue β
  | .schedule time event => (none, q.schedule time event)
  | .pop => q.pop
  | .popIf accept => q.popIf accept

/-- The foremost event is taken, unless nothing is pending. -/
theorem pop_cases (q : EventQueue β) : (q.pending = [] ∧ q.pop = (none, q)) ∨
    ∃ e rest, q.pending = e :: rest ∧ q.pop = (some e, { q with pending := rest }) := by
  unfold pop
  split
  · rename_i h
    exact .inl ⟨h, rfl⟩
  · rename_i e rest h
    exact .inr ⟨e, rest, h, rfl⟩

theorem popIf_eq (q : EventQueue β) (accept : Scheduled β → Bool) :
    q.popIf accept = if q.pop.1.any accept then q.pop else (none, q) := by
  unfold popIf pop
  split <;> simp

/-- The events that are popped until nothing is pending. -/
def drain (q : EventQueue β) : List (Scheduled β) :=
  match _h : q.pop with
  | (none, _) => []
  | (some e, rest) => e :: rest.drain
termination_by q.size
decreasing_by
  rcases q.pop_cases with ⟨-, hpop⟩ | ⟨e', rest', hpending, hpop⟩ <;> rw [hpop] at _h <;> cases _h
  simp [size, hpending]

theorem drain_eq (q : EventQueue β) : q.drain = q.pending := by
  obtain ⟨pending, nextNumber⟩ := q
  induction pending with
  | nil =>
    rw [drain]
    rfl
  | cons e rest ih =>
    rw [drain]
    exact congrArg (e :: ·) ih

/-! ## The events of a queue -/

/-- A queue with its history. -/
structure Log (β : Type) where
  queue : EventQueue β
  /-- All events scheduled so far, each numbered by how many came before it. -/
  scheduled : List (Scheduled β)
  /-- All events returned so far. -/
  returned : List (Scheduled β)

/-- The event that a call schedules behind `n` others. -/
def Call.event? (n : Nat) : Call β → Option (Scheduled β)
  | .schedule time event => some ⟨time, n, event⟩
  | _ => none

namespace Log

/-- The log in front of the first call. -/
def begin : Log β := ⟨.empty, [], []⟩

/-- The log behind a call. -/
def enter (l : Log β) (c : Call β) : Log β :=
  ⟨(l.queue.perform c).2, l.scheduled ++ (c.event? l.scheduled.length).toList,
    l.returned ++ (l.queue.perform c).1.toList⟩

/-- An event that was scheduled and not yet returned. -/
def Waits (l : Log β) (e : Scheduled β) : Prop := e ∈ l.scheduled ∧ e ∉ l.returned

/-- The event that waits and comes before all others that wait. -/
def Next (l : Log β) (e : Scheduled β) : Prop := l.Waits e ∧ ∀ f, l.Waits f → f ≠ e → e.Before f

/-- What was scheduled is returned or pending, and pending events are in their order. -/
structure Kept (l : Log β) : Prop where
  ordered : l.queue.Ordered
  split : (l.returned ++ l.queue.pending).Perm l.scheduled
  numbers : l.scheduled.map Scheduled.number = List.range l.scheduled.length
  next : l.queue.nextNumber = l.scheduled.length

theorem begin_kept : (begin : Log β).Kept := ⟨ordered_empty, .nil, rfl, rfl⟩

variable {l : Log β}

theorem Kept.schedule (h : l.Kept) (time : Instant) (event : β) : (l.enter (.schedule time event)).Kept := by
  obtain ⟨hordered, hsplit, hnumbers, hnext⟩ := h
  obtain ⟨e, he⟩ : ∃ e : Scheduled β, e = ⟨time, l.scheduled.length, event⟩ := ⟨_, rfl⟩
  have hqueue : (l.queue.schedule time event).pending = insert e l.queue.pending := by rw [he, ← hnext]; rfl
  have hscheduled : (l.enter (.schedule time event)).scheduled = l.scheduled ++ [e] := by rw [he]; rfl
  refine ⟨hordered.schedule time event, ?_, ?_, ?_⟩
  · show (l.returned ++ [] ++ (l.queue.schedule time event).pending).Perm _
    rw [hscheduled, hqueue, List.append_nil]
    calc l.returned ++ insert e l.queue.pending
      _ |>.Perm (l.returned ++ e :: l.queue.pending) := (insert_perm _ _).append_left _
      _ |>.Perm (e :: (l.returned ++ l.queue.pending)) := List.perm_middle
      _ |>.Perm (e :: l.scheduled) := hsplit.cons _
      _ |>.Perm (l.scheduled ++ [e]) := (List.perm_append_singleton _ _).symm
  · rw [hscheduled, List.map_append, hnumbers, List.length_append, List.length_singleton, List.range_succ, he]
    rfl
  · rw [hscheduled, List.length_append, List.length_singleton, ← hnext]
    rfl

theorem Kept.pop (h : l.Kept) : (l.enter .pop).Kept := by
  obtain ⟨hordered, hsplit, hnumbers, hnext⟩ := h
  unfold enter perform Call.event?
  simp only [Option.toList_none, List.append_nil]
  rcases l.queue.pop_cases with ⟨-, hpop⟩ | ⟨e, rest, hpending, hpop⟩ <;> rw [hpop]
  · exact ⟨hordered, by rwa [Option.toList_none, List.append_nil], hnumbers, hnext⟩
  · refine ⟨hordered.sublist (hpending ▸ List.sublist_cons_self ..), ?_, hnumbers, hnext⟩
    rw [hpending] at hsplit
    rwa [Option.toList_some, List.append_assoc]

theorem Kept.enter (h : l.Kept) (c : Call β) : (l.enter c).Kept := by
  cases c with
  | schedule time event => exact h.schedule time event
  | pop => exact h.pop
  | popIf accept =>
    -- an accepted event is popped, and otherwise nothing happens
    have hpop := h.pop
    unfold Log.enter perform at hpop ⊢
    simp only [popIf_eq]
    split
    · exact hpop
    · simpa [Call.event?] using h

theorem foldl_kept : ∀ (calls : List (Call β)) {l : Log β}, l.Kept → (calls.foldl Log.enter l).Kept
  | [], _, h => h
  | c :: calls, _, h => foldl_kept calls (h.enter c)

theorem Kept.nodup (h : l.Kept) : (l.returned ++ l.queue.pending).Nodup := by
  refine h.split.nodup_iff.2 (List.Nodup.of_map Scheduled.number ?_)
  rw [h.numbers]
  exact List.nodup_range

theorem Kept.waits_iff (h : l.Kept) {e : Scheduled β} : l.Waits e ↔ e ∈ l.queue.pending := by
  unfold Waits
  rw [← h.split.mem_iff, List.mem_append]
  constructor
  · rintro ⟨hreturned | hpending, hnot⟩
    · exact absurd hreturned hnot
    · exact hpending
  · exact fun hpending => ⟨.inr hpending, fun hreturned => (List.disjoint_of_nodup_append h.nodup) hreturned hpending⟩

theorem Kept.next_of_pending (h : l.Kept) {e : Scheduled β} {rest : List (Scheduled β)}
    (hp : l.queue.pending = e :: rest) : l.Next e := by
  have hsorted := h.ordered.sorted
  rw [hp] at hsorted
  refine ⟨h.waits_iff.2 (by rw [hp]; exact List.mem_cons_self ..), fun f hf hne => ?_⟩
  have hmem := h.waits_iff.1 hf
  rw [hp] at hmem
  exact (List.pairwise_cons.1 hsorted).1 f ((List.mem_cons.1 hmem).resolve_left hne)

/-- What a queue does for whoever schedules events on it and takes them. -/
structure Serves (l : Log β) : Prop where
  /-- Each event is returned at most once, and only if it was scheduled. -/
  once : l.returned.Nodup ∧ ∀ e ∈ l.returned, e ∈ l.scheduled
  /-- A pop returns the next event, or nothing if none waits. -/
  pop : (∃ e, l.queue.pop.1 = some e ∧ l.Next e) ∨ (l.queue.pop = (none, l.queue) ∧ ∀ e, ¬ l.Waits e)
  /-- A conditional pop returns that event if it is accepted, and otherwise leaves the queue as it is. -/
  popIf : ∀ accept, l.queue.popIf accept = l.queue.pop ∧ (∀ e, l.queue.pop.1 = some e → accept e = true) ∨
    l.queue.popIf accept = (none, l.queue) ∧ ∀ e, l.queue.pop.1 = some e → accept e = false
  /-- Draining returns all events that wait, in their order. -/
  drain : l.queue.drain.Pairwise Scheduled.Before ∧ ∀ e, e ∈ l.queue.drain ↔ l.Waits e

theorem Kept.serves (h : l.Kept) : l.Serves := by
  refine ⟨⟨h.nodup.of_append_left, fun e he => h.split.mem_iff.1 (List.mem_append_left _ he)⟩, ?_, fun accept => ?_, ?_⟩
  · rcases l.queue.pop_cases with ⟨hpending, hpop⟩ | ⟨e, rest, hpending, hpop⟩
    · refine .inr ⟨hpop, fun e he => ?_⟩
      rw [h.waits_iff, hpending] at he
      cases he
    · exact .inl ⟨e, by rw [hpop], h.next_of_pending hpending⟩
  · rw [popIf_eq]
    rcases l.queue.pop_cases with ⟨-, hpop⟩ | ⟨e, rest, -, hpop⟩ <;> rw [hpop]
    · exact .inl ⟨by simp, by simp⟩
    · cases haccept : accept e <;> simp [haccept]
  · rw [drain_eq]
    exact ⟨h.ordered.sorted, fun e => h.waits_iff.symm⟩

end Log

/-! ## Queues over heaps -/

/-- A heap, as far as a queue relies on it: it holds what was pushed, and pops what nothing it holds is greater than. -/
structure MaxHeap (γ : Type) (order : γ → γ → Ordering) where
  Carrier : Type
  empty : Carrier
  push : γ → Carrier → Carrier
  peek : Carrier → Option γ
  pop : Carrier → Option γ × Carrier
  holds : Carrier → Multiset γ
  holds_empty : holds empty = 0
  holds_push : ∀ x h, holds (push x h) = x ::ₘ holds h
  peek_eq : ∀ h, peek h = (pop h).1
  pop_none : ∀ h, (pop h).1 = none → holds h = 0 ∧ holds (pop h).2 = 0
  pop_some : ∀ h x, (pop h).1 = some x → holds h = x ::ₘ holds (pop h).2 ∧ ∀ y ∈ holds h, order y x ≠ .gt

/-- A heap of events in which the earliest is the greatest, and of one time the one scheduled first. -/
abbrev EventHeap (β : Type) : Type 1 := MaxHeap (Scheduled β) fun e f => f.order e

/-- A row in this order is such a heap. -/
instance : Nonempty (EventHeap β) := ⟨{
  Carrier := { l : List (Scheduled β) // l.Pairwise Scheduled.NotAfter }
  empty := ⟨[], .nil⟩
  push e h := ⟨h.1.orderedInsert Scheduled.NotAfter e, h.2.orderedInsert e _⟩
  peek h := h.1.head?
  pop h := (h.1.head?, ⟨h.1.tail, h.2.tail⟩)
  holds h := h.1
  holds_empty := rfl
  holds_push e h := Multiset.coe_eq_coe.2 (List.perm_orderedInsert _ e h.1)
  peek_eq _ := rfl
  pop_none h hnone := by
    rw [List.head?_eq_none_iff] at hnone
    simp [hnone]
  pop_some h e hsome := by
    obtain ⟨l, hl⟩ := h
    obtain ⟨rest, rfl⟩ := List.head?_eq_some_iff.1 hsome
    obtain ⟨hfirst, -⟩ := List.pairwise_cons.1 hl
    refine ⟨rfl, fun f hf => ?_⟩
    rcases List.mem_cons.1 (Multiset.mem_coe.1 hf) with rfl | hf
    · exact Scheduled.notAfter_refl f
    · exact hfirst f hf }⟩

/-- A queue that keeps its events in a heap. -/
structure HeapQueue (H : EventHeap β) where
  heap : H.Carrier
  nextNumber : Nat

namespace HeapQueue

variable {H : EventHeap β}

/-- The earliest event, and the queue without it. -/
def pop (q : HeapQueue H) : Option (Scheduled β) × HeapQueue H := ((H.pop q.heap).1, ⟨(H.pop q.heap).2, q.nextNumber⟩)

/-- The event that is returned by a call, and the queue behind it. -/
def perform (q : HeapQueue H) : Call β → Option (Scheduled β) × HeapQueue H
  | .schedule time event => (none, ⟨H.push ⟨time, q.nextNumber, event⟩ q.heap, q.nextNumber + 1⟩)
  | .pop => q.pop
  | .popIf accept => if (H.peek q.heap).any accept then q.pop else (none, q)

/-- The heap holds what is pending, and events are numbered alike. -/
structure Mirrors (r : HeapQueue H) (q : EventQueue β) : Prop where
  ordered : q.Ordered
  holds : H.holds r.heap = (q.pending : Multiset (Scheduled β))
  number : r.nextNumber = q.nextNumber

variable {r : HeapQueue H} {q : EventQueue β}

theorem Mirrors.schedule (h : r.Mirrors q) (time : Instant) (event : β) :
    (r.perform (.schedule time event)).2.Mirrors (q.schedule time event) := by
  refine ⟨h.ordered.schedule time event, ?_, congrArg (· + 1) h.number⟩
  show H.holds (H.push ⟨time, r.nextNumber, event⟩ r.heap) = _
  rw [H.holds_push, h.holds, h.number, Multiset.cons_coe]
  exact Multiset.coe_eq_coe.2 (insert_perm _ _).symm

/-- What nothing in the heap is greater than is the foremost event. -/
theorem Mirrors.pop (h : r.Mirrors q) : r.pop.1 = q.pop.1 ∧ r.pop.2.Mirrors q.pop.2 := by
  have hholds := h.holds
  rcases q.pop_cases with ⟨hpending, hpop⟩ | ⟨e, rest, hpending, hpop⟩ <;> rw [hpop] <;> rw [hpending] at hholds
  · cases hr : (H.pop r.heap).1 with
    | none => exact ⟨hr, h.ordered, by rw [hpending]; exact (H.pop_none _ hr).2, h.number⟩
    | some x =>
      rw [(H.pop_some _ x hr).1] at hholds
      exact absurd hholds Multiset.cons_ne_zero
  · cases hr : (H.pop r.heap).1 with
    | none =>
      rw [(H.pop_none _ hr).1, ← Multiset.cons_coe] at hholds
      exact absurd hholds.symm Multiset.cons_ne_zero
    | some x =>
      obtain ⟨hsplit, hgreatest⟩ := H.pop_some _ x hr
      have hsorted := h.ordered.sorted
      rw [hpending] at hsorted
      rw [hholds] at hsplit hgreatest
      obtain rfl : x = e := by
        have hx : x ∈ e :: rest := Multiset.mem_coe.1 (hsplit ▸ Multiset.mem_cons_self x _)
        by_contra hne
        have hbefore := (List.pairwise_cons.1 hsorted).1 x ((List.mem_cons.1 hx).resolve_left hne)
        exact hgreatest e (Multiset.mem_coe.2 (List.mem_cons_self ..)) (Scheduled.order_eq_gt.2 hbefore)
      rw [← Multiset.cons_coe, Multiset.cons_inj_right] at hsplit
      exact ⟨hr, h.ordered.sublist (hpending ▸ List.sublist_cons_self ..), hsplit.symm, h.number⟩

theorem Mirrors.perform (h : r.Mirrors q) (c : Call β) :
    (r.perform c).1 = (q.perform c).1 ∧ (r.perform c).2.Mirrors (q.perform c).2 := by
  cases c with
  | schedule time event => exact ⟨rfl, h.schedule time event⟩
  | pop => exact h.pop
  | popIf accept =>
    have hpeek : H.peek r.heap = q.pop.1 := (H.peek_eq _).trans h.pop.1
    unfold HeapQueue.perform EventQueue.perform
    simp only [popIf_eq, hpeek]
    split
    · exact h.pop
    · exact ⟨rfl, h⟩

theorem mirrors_empty : (⟨H.empty, 0⟩ : HeapQueue H).Mirrors empty := ⟨ordered_empty, H.holds_empty, rfl⟩

end HeapQueue

/-- What a row of calls returns. -/
def answers {σ : Type} (perform : σ → Call β → Option (Scheduled β) × σ) :
    σ → List (Call β) → List (Option (Scheduled β))
  | _, [] => []
  | s, c :: calls => (perform s c).1 :: answers perform (perform s c).2 calls

theorem HeapQueue.Mirrors.answers {H : EventHeap β} : ∀ (calls : List (Call β)) {r : HeapQueue H} {q : EventQueue β},
    r.Mirrors q → answers HeapQueue.perform r calls = answers EventQueue.perform q calls
  | [], _, _, _ => rfl
  | c :: calls, r, q, h => by
    rw [EventQueue.answers, EventQueue.answers, (h.perform c).1, Mirrors.answers calls (h.perform c).2]

/-- Behind any calls on a new queue, each event has been returned at most once, the next that is returned is the
earliest that waits and of one time the one scheduled first, a conditional pop returns no other and leaves the queue as
it is if that one is not accepted, and draining returns all that wait in this order. A queue over any heap answers the
calls alike. -/
theorem stable (calls : List (Call β)) : (calls.foldl Log.enter .begin).Serves ∧
    ∀ H : EventHeap β, answers HeapQueue.perform (⟨H.empty, 0⟩ : HeapQueue H) calls =
      answers EventQueue.perform empty calls :=
  ⟨(Log.foldl_kept calls Log.begin_kept).serves, fun _ => HeapQueue.mirrors_empty.answers calls⟩

end EventQueue

end PrinterMotion
