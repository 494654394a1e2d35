/-
What a queue looks like after a trapezoid has been appended, or refused. The phases are queued one by one, each
from where the one before it ends, and what has been queued stays when a later one is refused. That can only
be for a phase that begins at a time that is not finite, or lasts for one; in all other cases a trapezoid that
is refused leaves no trace. Nothing here needs exact arithmetic.
-/
import PrinterMotion.Proofs.Sums
import PrinterMotion.Motion.Queue

namespace PrinterMotion

variable {α : Type} [Scalar α]

/-! ## Segments -/

namespace Segment

/-- Start and duration are finite. -/
def timed (s : Segment α) : Bool := Scalar.isFinite s.start && Scalar.isFinite s.duration

/-- `u` begins at the time and the place at which `s` ends. -/
def Follows (s u : Segment α) : Prop := u.start = s.finish ∧ u.position = s.target

end Segment

namespace Queue

/-- The phases of a trapezoid that last, with their durations. -/
def Trapezoid.lasting (t : Trapezoid α) : List (Phase × α) :=
  [(.accelerate, t.accelTime), (.cruise, t.cruiseTime), (.decelerate, t.decelTime)].filter fun p => (0.0 : α) < p.2

namespace Trapezoid

variable (t : Trapezoid α)

theorem segments_phases : t.segments.map (fun s => (s.phase, s.duration)) = t.lasting := by
  unfold segments lasting
  split <;> split <;> split <;> simp_all

theorem segments_chain : t.segments.IsChain Segment.Follows := by
  unfold segments
  split <;> split <;> split <;> simp_all [segments.after, Segment.Follows, Segment.finish]

theorem segments_head : ∀ s ∈ t.segments.head?, s.start = t.start ∧ s.position = t.position := by
  unfold segments
  split <;> split <;> split <;> simp_all [segments.after]

theorem segments_lasts : ∀ s ∈ t.segments, (0.0 : α) < s.duration := by
  intro s hs
  have hmem := List.mem_map_of_mem (f := fun s => (s.phase, s.duration)) hs
  rw [t.segments_phases, lasting, List.mem_filter] at hmem
  simpa using hmem.2

end Trapezoid

/-! ## One segment -/

/-- Why the queue refuses a segment, if it does. -/
def refusal? (q : Queue α) (s : Segment α) : Option (QueueError α) :=
  if !s.timed || s.duration < (0.0 : α) then some (.invalidTiming s.start s.duration)
  else q.active.back?.bind fun last =>
    if s.start < last.finish - joinTolerance then some (.outOfOrder s.start last.finish) else none

/-- The hold that the queue puts in front of a segment: a lead-in if it is empty, or one over a gap. -/
def lead (q : Queue α) (s : Segment α) : List (Segment α) :=
  match q.active.back? with
  | none => [.hold (s.start - holdTime) holdTime s.position]
  | some last =>
    if last.finish + joinTolerance < s.start then [.hold last.finish (s.start - last.finish) last.target] else []

/-- The queue with segments behind those it has. -/
def extend (q : Queue α) (row : List (Segment α)) : Queue α := { q with active := q.active ++ row.toArray }

variable {q : Queue α} {s : Segment α}

omit [Scalar α] in
@[simp] theorem extend_nil (q : Queue α) : q.extend [] = q := by
  simp [extend]

omit [Scalar α] in
theorem extend_extend (q : Queue α) (row row' : List (Segment α)) :
    (q.extend row).extend row' = q.extend (row ++ row') := by
  simp [extend]

omit [Scalar α] in
theorem back?_extend (q : Queue α) (row : List (Segment α)) (s : Segment α) :
    (q.extend (row ++ [s])).active.back? = some s := by
  simp [extend]

omit [Scalar α] in
theorem push_push (segs : Array (Segment α)) (s u : Segment α) : (segs.push s).push u = segs ++ [s, u].toArray := by
  rw [← Array.toList_inj]
  simp

theorem add_eq (q : Queue α) (s : Segment α) : q.add s =
    match q.refusal? s with
    | some e => .error e
    | none => .ok (q.extend (q.lead s ++ [s])) := by
  unfold add refusal? Segment.timed
  rw [Bool.not_and]
  split
  · rfl
  · rw [lead]
    cases q.active.back? with
    | none =>
      rw [List.singleton_append, extend, ← push_push]
      rfl
    | some last =>
      dsimp only [Option.bind_some]
      split
      · rfl
      · split
        · rw [List.singleton_append, extend, ← push_push]
        · simp [extend]

/-! ## Phases -/

section Phases
variable [Scalar.Directed α] {last : Segment α}

open Scalar

/-- A segment that begins where the queue ends is queued as it is, unless it begins or lasts for a time that is
not finite. -/
theorem refusal?_following (hl : q.active.back? = some last) (hf : last.Follows s) (hd : (0.0 : α) < s.duration) :
    q.refusal? s = if s.timed then none else some (.invalidTiming s.start s.duration) := by
  have hforth : ¬ s.duration < (0.0 : α) := Directed.not_lt_of_le (Lawful.le_of_lt hd)
  unfold refusal?
  cases ht : s.timed with
  | false => rfl
  | true =>
    have hfinite : isFinite last.finish = true := by
      rw [← hf.1]
      exact (Bool.and_eq_true_iff.1 ht).1
    have hback : ¬ s.start < last.finish - joinTolerance := by
      rw [hf.1]
      exact Directed.not_lt_of_le (Directed.sub_le hfinite Directed.isFinite_nano Directed.zero_le_nano)
    simp [hl, hforth, hback]

theorem lead_following (hl : q.active.back? = some last) (hf : last.Follows s) (ht : s.timed = true) :
    q.lead s = [] := by
  have hfinite : isFinite last.finish = true := by
    rw [← hf.1]
    exact (Bool.and_eq_true_iff.1 ht).1
  have hgap : ¬ last.finish + joinTolerance < s.start := by
    rw [hf.1]
    exact Directed.not_lt_of_le (Directed.le_add hfinite Directed.isFinite_nano Directed.zero_le_nano)
  simp [lead, hl, hgap]

/-- Segments that follow on each other are queued up to the first that begins or lasts for a time that is not
finite. -/
theorem addAll_following : ∀ (row : List (Segment α)) {q : Queue α} {last : Segment α},
    q.active.back? = some last → (last :: row).IsChain Segment.Follows → (∀ s ∈ row, (0.0 : α) < s.duration) →
      q.addAll row = (q.extend (row.takeWhile Segment.timed),
        (row.find? (!Segment.timed ·)).map fun s => .invalidTiming s.start s.duration)
  | [], q, _, _, _, _ => by simp [addAll]
  | s :: rest, q, last, hl, hc, hd => by
    obtain ⟨hf, hrest⟩ := List.isChain_cons_cons.1 hc
    have hrefusal := refusal?_following hl hf (hd s List.mem_cons_self)
    rw [addAll, add_eq, hrefusal]
    cases ht : s.timed with
    | false => simp [ht]
    | true =>
      have hnext := addAll_following rest (q := q.extend [s]) (back?_extend q [] s) hrest
        fun u hu => hd u (List.mem_cons_of_mem _ hu)
      simp only [if_true, lead_following hl hf ht, List.nil_append, hnext, extend_extend]
      simp [ht]

end Phases

/-! ## Trapezoids -/

section Trapezoids
variable [Scalar.Directed α]

/-- A trapezoid without phases changes nothing. Of one with phases either the first is refused, or the queue takes
the phases up to the first later one that begins or lasts for a time that is not finite. -/
theorem append_cases (q : Queue α) (t : Trapezoid α) :
    (t.segments = [] ∧ q.append t = (q, none)) ∨ ∃ s rest, t.segments = s :: rest ∧
      ((∃ e, q.refusal? s = some e ∧ q.append t = (q, some e)) ∨
        q.refusal? s = none ∧ q.append t = (q.extend (q.lead s ++ s :: rest.takeWhile Segment.timed),
          (rest.find? (!Segment.timed ·)).map fun u => .invalidTiming u.start u.duration)) := by
  rw [append]
  have hchain := t.segments_chain
  have hlasts := t.segments_lasts
  generalize t.segments = row at hchain hlasts
  cases row with
  | nil => exact .inl ⟨rfl, rfl⟩
  | cons s rest =>
    refine .inr ⟨s, rest, rfl, ?_⟩
    rw [addAll, add_eq]
    cases hrefusal : q.refusal? s with
    | some e => exact .inl ⟨e, rfl, rfl⟩
    | none =>
      have hrest := addAll_following rest (back?_extend q (q.lead s) s) hchain
        fun u hu => hlasts u (List.mem_cons_of_mem _ hu)
      refine .inr ⟨rfl, ?_⟩
      simp only [hrest, extend_extend]
      simp

/-- A trapezoid is one segment for each phase that lasts, the first where the trapezoid begins and each other one
where and when the one before it ends. Appending it touches neither the history nor what has been retired. If it
is accepted, all segments are queued, behind at most a hold; if it is refused, the queue stays as it was, given
that the phases behind the first begin at finite times and last for such. Otherwise those in front of the first
that does not are left in the queue. -/
theorem append_extends (q : Queue α) (t : Trapezoid α) :
    t.segments.map (fun s => (s.phase, s.duration)) = t.lasting ∧ t.segments.IsChain Segment.Follows ∧
    (∀ s ∈ t.segments.head?, s.start = t.start ∧ s.position = t.position) ∧
    (q.append t).1.history = q.history ∧ (q.append t).1.retiredBefore = q.retiredBefore ∧
    ((q.append t).2 = none → (q.append t).1.active.toList =
      q.active.toList ++ t.segments.head?.toList.flatMap q.lead ++ t.segments) ∧
    ((q.append t).2 ≠ none → (∀ u ∈ t.segments.tail, u.timed = true) → (q.append t).1 = q) ∧
    ∀ e, (q.append t).2 = some e → (q.append t).1 = q ∨ ∃ s taken u rest, t.segments = s :: taken ++ u :: rest ∧
      u.timed = false ∧ e = .invalidTiming u.start u.duration ∧ (q.append t).1 = q.extend (q.lead s ++ s :: taken) := by
  refine ⟨t.segments_phases, t.segments_chain, t.segments_head, ?_⟩
  rcases append_cases q t with ⟨hnil, happend⟩ | ⟨s, rest, hrow, ⟨e, -, happend⟩ | ⟨-, happend⟩⟩
  · simp [happend, hnil]
  · simp [happend]
  · rw [happend, hrow]
    refine ⟨rfl, rfl, fun hok => ?_, fun hfault htimed => ?_, fun e he => .inr ?_⟩
    · -- No phase is left behind.
      have hall : rest.takeWhile Segment.timed = rest := by
        refine List.takeWhile_eq_self_iff.2 fun u hu => ?_
        simpa using List.find?_eq_none.1 (Option.map_eq_none_iff.1 hok) u hu
      simp [extend, hall]
    · refine absurd ?_ hfault
      refine Option.map_eq_none_iff.2 (List.find?_eq_none.2 fun u hu => ?_)
      simp [htimed u hu]
    · obtain ⟨u, hu, rfl⟩ := Option.map_eq_some_iff.1 he
      obtain ⟨hfalse, taken, later, hsplit, htaken⟩ := List.find?_eq_some_iff_append.1 hu
      have htimed : u.timed = false := by simpa using hfalse
      have hqueued : rest.takeWhile Segment.timed = taken := by
        rw [hsplit, List.takeWhile_append_of_pos fun v hv => by simpa using htaken v hv]
        simp [htimed]
      exact ⟨s, taken, u, later, by rw [hsplit]; rfl, htimed, rfl, by rw [hqueued]⟩

end Trapezoids

/-- Up to 2 mm/s, on at that speed, and down again, from 1 s to 5 s. -/
def upAndDown : Trapezoid Float := ⟨1, 1, 2, 1, ⟨0, 0, 0⟩, ⟨1, 0, 0⟩, 0, 2, 2⟩

/-- Into an empty queue the three phases go behind a lead-in; a second time they come too late. -/
theorem append_extends_upAndDown : upAndDown.lasting.length = 3 ∧
    (∃ h, (Queue.empty.append upAndDown).1.active.toList = h :: upAndDown.segments) ∧
    ((Queue.empty.append upAndDown).1.append upAndDown).2.isSome = true ∧
    ((Queue.empty.append upAndDown).1.append upAndDown).1 = (Queue.empty.append upAndDown).1 := by
  obtain ⟨-, -, -, -, -, hok, -⟩ := append_extends Queue.empty upAndDown
  obtain ⟨-, -, -, -, -, -, hfault, -⟩ := append_extends (Queue.empty.append upAndDown).1 upAndDown
  have haccepted : (Queue.empty.append upAndDown).2.isNone = true := by decide +kernel
  have hrefused : ((Queue.empty.append upAndDown).1.append upAndDown).2.isSome = true := by decide +kernel
  refine ⟨by decide +kernel, ?_, hrefused, hfault (Option.ne_none_iff_isSome.2 hrefused) (by decide +kernel)⟩
  have hrow := hok (Option.isNone_iff_eq_none.1 haccepted)
  cases hsegs : upAndDown.segments with
  | nil =>
    have hsome : upAndDown.segments.isEmpty = false := by decide +kernel
    rw [hsegs] at hsome
    cases hsome
  | cons s rest =>
    rw [hsegs] at hrow
    exact ⟨_, hrow⟩

/-- A trapezoid whose second phase does not end. -/
def endless : Trapezoid Float := ⟨1, 1, 1 / 0, 1, ⟨0, 0, 0⟩, ⟨1, 0, 0⟩, 0, 2, 2⟩

/-- It is refused, and its first phase stays in the queue, behind a lead-in. -/
theorem not_append_all_or_nothing : (Queue.empty.append endless).2.isSome = true ∧
    (Queue.empty : Queue Float).size = 0 ∧ (Queue.empty.append endless).1.size = 2 := by
  decide +kernel

end Queue

end PrinterMotion
