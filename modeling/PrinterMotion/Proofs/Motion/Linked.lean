/-
How the segments of a queue follow each other. Segments come in at the end of the queue alone, behind the
holds that the queue puts in front of them, and go at its front alone. So what holds of neighbours is
settled when a segment is queued: it begins about when the one before it ends, and where that one ends if
the segments that are queued carry on from there.
-/
import PrinterMotion.Proofs.Elementwise
import PrinterMotion.Proofs.Motion.Playing

namespace PrinterMotion

variable {F : Type} [Exact F]

/-! ## Neighbours -/

/-- Segments that last, and each of which begins about when the one before it ends. -/
structure Linked (row : List (Segment F)) : Prop where
  duration_nonneg : ∀ s ∈ row, 0 ≤ s.duration
  meets : row.IsChain fun s u => |u.start - s.finish| ≤ joinTolerance

/-- Segments each of which begins where the one before it ends. -/
def Unbroken (row : List (Segment F)) : Prop := row.IsChain fun s u => u.position = s.target

instance (row : List (Segment F)) : Decidable (Unbroken row) :=
  inferInstanceAs (Decidable (row.IsChain fun s u => u.position = s.target))

/-- What holds of all neighbours in a row and behind its last element holds in the longer row. -/
theorem isChain_glue {α : Type} {R : α → α → Prop} {row grown : List α} (h : row.IsChain R)
    (hg : (row.getLast?.toList ++ grown).IsChain R) : (row ++ grown).IsChain R := by
  rw [List.isChain_append] at hg ⊢
  obtain ⟨-, hgrown, hmeet⟩ := hg
  refine ⟨h, hgrown, fun x hx y hy => hmeet x ?_ y hy⟩
  rw [Option.mem_def.1 hx]
  rfl

theorem Linked.glue {row grown : List (Segment F)} (h : Linked row) (hg : Linked (row.getLast?.toList ++ grown)) :
    Linked (row ++ grown) := by
  refine ⟨fun s hs => ?_, isChain_glue h.meets hg.meets⟩
  rcases List.mem_append.1 hs with hs | hs
  · exact h.duration_nonneg s hs
  · exact hg.duration_nonneg s (List.mem_append_right _ hs)

theorem Linked.suffix {row row' : List (Segment F)} (h : Linked row) (hs : row' <:+ row) : Linked row' :=
  ⟨fun s hm => h.duration_nonneg s (hs.subset hm), h.meets.suffix hs⟩

theorem Linked.last {row : List (Segment F)} (h : Linked row) : Linked row.getLast?.toList := by
  rcases List.eq_nil_or_concat row with rfl | ⟨init, s, rfl⟩
  · exact h
  · rw [List.concat_eq_append] at h ⊢
    rw [List.getLast?_concat]
    exact h.suffix (List.suffix_append _ _)

theorem linked_pair {s u : Segment F} (hs : 0 ≤ s.duration) (hu : 0 ≤ u.duration)
    (h : |u.start - s.finish| ≤ joinTolerance) : Linked [s, u] := by
  refine ⟨?_, .cons_cons h (.singleton u)⟩
  rintro v (_ | ⟨_, _ | ⟨_, hv⟩⟩)
  · exact hs
  · exact hu
  · cases hv

theorem meets_of_eq {s u : Segment F} (h : u.start = s.finish) : |u.start - s.finish| ≤ joinTolerance := by
  rw [h, sub_self, abs_zero]
  exact Queue.joinTolerance_pos.le

/-! ## Holds -/

/-- The segment `h` stands still from the end of `last` until `time`. -/
structure Bridges (last h : Segment F) (time : F) : Prop where
  still : h = .hold h.start h.duration h.position
  start : h.start = last.finish
  place : h.position = last.target
  lasts : 0 ≤ h.duration
  finish : h.finish = time

/-- The segment `h` stands still for a second in front of `s`. -/
structure LeadsIn (h s : Segment F) : Prop where
  still : h = .hold h.start h.duration h.position
  place : h.position = s.position
  lasts : h.duration = 1
  finish : h.finish = s.start

theorem bridges_hold {last : Segment F} {time : F} (h : last.finish ≤ time) :
    Bridges last (.hold last.finish (time - last.finish) last.target) time :=
  ⟨rfl, rfl, rfl, sub_nonneg.2 h, add_sub_cancel last.finish time⟩

theorem leadsIn_hold (s : Segment F) : LeadsIn (.hold (s.start - holdTime) holdTime s.position) s :=
  ⟨rfl, rfl, Scalar.one_literal, sub_add_cancel s.start holdTime⟩

theorem Bridges.target {last h : Segment F} {time : F} (hb : Bridges last h time) : h.target = last.target := by
  rw [hb.still, Segment.target_hold, hb.place]

theorem LeadsIn.target {h s : Segment F} (hl : LeadsIn h s) : h.target = s.position := by
  rw [hl.still, Segment.target_hold, hl.place]

/-! ## Growth -/

/-- What a queue that ends with `last` puts in front of a segment: a lead-in if it is empty, a hold over a
gap, and nothing in front of a segment that begins about when the queue ends. -/
inductive Fills : Option (Segment F) → Segment F → List (Segment F) → Prop where
  | leadIn {h s : Segment F} (hl : LeadsIn h s) : Fills none s [h]
  | gap {last h s : Segment F} (hb : Bridges last h s.start) : Fills (some last) s [h]
  | meet {last s : Segment F} (hm : |s.start - last.finish| ≤ joinTolerance) : Fills (some last) s []

/-- What a queue that ends with `last` grows by when it takes segments. -/
inductive Grows : Option (Segment F) → List (Segment F) → List (Segment F) → Prop where
  | nil (last : Option (Segment F)) : Grows last [] []
  | take {last : Option (Segment F)} {s : Segment F} {front taken grown : List (Segment F)} (hd : 0 ≤ s.duration)
      (hf : Fills last s front) (h : Grows (some s) taken grown) : Grows last (s :: taken) (front ++ s :: grown)

variable {last : Option (Segment F)} {s : Segment F} {taken grown : List (Segment F)}

theorem Fills.linked {front : List (Segment F)} (h : Fills last s front) (hd : 0 ≤ s.duration)
    (hl : Linked last.toList) : Linked (last.toList ++ front ++ [s]) := by
  cases h with
  | leadIn hl => exact linked_pair (hl.lasts ▸ zero_le_one) hd (meets_of_eq hl.finish.symm)
  | gap hb =>
    have hlast := hl.duration_nonneg _ List.mem_cons_self
    exact (linked_pair hlast hb.lasts (meets_of_eq hb.start)).glue
      (linked_pair hb.lasts hd (meets_of_eq hb.finish.symm))
  | meet hm => exact linked_pair (hl.duration_nonneg _ List.mem_cons_self) hd hm

theorem Fills.unbroken {front : List (Segment F)} (h : Fills last s front) (hs : ∀ u ∈ last, s.position = u.target) :
    Unbroken (last.toList ++ front ++ [s]) := by
  cases h with
  | leadIn hl => exact .cons_cons hl.target.symm (.singleton s)
  | gap hb => exact .cons_cons hb.place (.cons_cons ((hs _ rfl).trans hb.target.symm) (.singleton s))
  | meet hm => exact .cons_cons (hs _ rfl) (.singleton s)

theorem Grows.linked (h : Grows last taken grown) (hl : Linked last.toList) : Linked (last.toList ++ grown) := by
  induction h with
  | nil last => rwa [List.append_nil]
  | @take last s front taken grown hd hf h ih =>
    -- What follows is glued on behind `s`, which ends the row so far.
    have hfront := hf.linked hd hl
    have hrest : Linked ((last.toList ++ front ++ [s]).getLast?.toList ++ grown) := by
      rw [List.getLast?_concat]
      exact ih (hfront.suffix (List.suffix_append _ _))
    have hall := hfront.glue hrest
    rwa [List.append_assoc, List.append_assoc] at hall

theorem Grows.unbroken (h : Grows last taken grown) (ht : Unbroken (last.toList ++ taken)) :
    Unbroken (last.toList ++ grown) := by
  induction h with
  | nil last => exact ht
  | @take last s front taken grown hd hf h ih =>
    have hsplit := List.isChain_append.1 ht
    have hfront : Unbroken (last.toList ++ front ++ [s]) := by
      refine hf.unbroken fun u hu => hsplit.2.2 u ?_ s rfl
      rw [Option.mem_def.1 hu]
      rfl
    have hrest : Unbroken ((last.toList ++ front ++ [s]).getLast?.toList ++ grown) := by
      rw [List.getLast?_concat]
      exact ih hsplit.2.1
    have hall := isChain_glue hfront hrest
    rwa [List.append_assoc, List.append_assoc] at hall

/-! ## Queueing -/

namespace Queue

variable {q q' : Queue F}

theorem add_grows (h : q.add s = .ok q') : 0 ≤ s.duration ∧ ∃ front, Fills q.active.back? s front ∧
    q'.active.toList = q.active.toList ++ (front ++ [s]) := by
  simp only [add, Scalar.isFinite_eq, Scalar.zero_literal, Bool.not_true, Bool.false_or, decide_eq_true_eq] at h
  split at h
  · cases h
  · rename_i hd
    refine ⟨not_lt.1 hd, ?_⟩
    split at h
    · rename_i last hlast
      rw [hlast]
      split at h
      · cases h
      · rename_i hearly
        split at h
        · -- A gap is filled.
          rename_i hlate
          cases h
          have hle : last.finish ≤ s.start := by linarith [joinTolerance_pos (F := F)]
          exact ⟨_, .gap (bridges_hold hle), by simp⟩
        · -- Within the tolerance nothing is put in front.
          rename_i hnear
          cases h
          refine ⟨[], .meet ?_, by simp⟩
          rw [abs_le]
          constructor <;> linarith
    · rename_i hnone
      cases h
      rw [hnone]
      exact ⟨_, .leadIn (leadsIn_hold s), by simp⟩

theorem add_back? (h : q.add s = .ok q') : q'.active.back? = some s := by
  obtain ⟨-, front, -, hrow⟩ := add_grows h
  rw [← Array.getLast?_toList, hrow, ← List.append_assoc, List.getLast?_concat]

/-- A queue takes the segments up to the first that it refuses. -/
theorem addAll_grows : ∀ (segs : List (Segment F)) (q : Queue F), ∃ taken grown, taken <+: segs ∧
    Grows q.active.back? taken grown ∧ (q.addAll segs).1.active.toList = q.active.toList ++ grown
  | [], q => ⟨[], [], List.prefix_rfl, .nil _, (List.append_nil _).symm⟩
  | s :: rest, q => by
    cases hadd : q.add s with
    | error e => exact ⟨[], [], List.nil_prefix, .nil _, by simp [addAll, hadd]⟩
    | ok q' =>
      obtain ⟨hd, front, hfront, hrow⟩ := add_grows hadd
      obtain ⟨taken, grown, hpre, hgrows, hrest⟩ := addAll_grows rest q'
      rw [add_back? hadd] at hgrows
      refine ⟨s :: taken, front ++ s :: grown, List.cons_prefix_cons.2 ⟨rfl, hpre⟩, .take hd hfront hgrows, ?_⟩
      simp [addAll, hadd, hrest, hrow]

theorem addAll_unbroken (h : Unbroken q.active.toList) : ∀ {segs : List (Segment F)}, Unbroken segs →
    (∀ s ∈ segs.head?, (q.add s).isOk → ∀ last ∈ q.active.back?, s.position = last.target) →
      Unbroken (q.addAll segs).1.active.toList
  | [], _, _ => h
  | s :: rest, hs, hc => by
    cases hadd : q.add s with
    | error e => simpa [addAll, hadd] using h
    | ok q' =>
      obtain ⟨taken, grown, hpre, hgrows, hrow⟩ := addAll_grows (s :: rest) q
      have htaken : Unbroken (q.active.back?.toList ++ taken) := by
        refine List.IsChain.prefix ?_ ((List.prefix_append_right_inj _).2 hpre)
        have hlast := hc s rfl (by rw [hadd]; rfl)
        cases hback : q.active.back? with
        | none => exact hs
        | some last => exact .cons_cons (hlast last hback) hs
      rw [hrow]
      refine isChain_glue h ?_
      rw [Array.getLast?_toList]
      exact hgrows.unbroken htaken

/-- A queue holds from the end of its last segment until the time, or stays as it is. -/
theorem holdUntil_row (q : Queue F) (time : F) : ∃ q', q.holdUntil time = .ok q' ∧
    (q'.active.toList = q.active.toList ∨ ∃ last ∈ q.active.back?, ∃ h, Bridges last h time ∧
      q'.active.toList = q.active.toList ++ [h]) := by
  unfold holdUntil
  split
  · exact ⟨q, rfl, .inl rfl⟩
  · rename_i last hlast
    dsimp only
    split
    · exact ⟨q, rfl, .inl rfl⟩
    · rename_i hlate
      rw [not_le] at hlate
      have htol := joinTolerance_pos (F := F)
      have hstart : ∀ d p, (Segment.hold last.finish d p).start = last.finish := fun _ _ => rfl
      have hdur : ∀ d p, (Segment.hold last.finish d p).duration = d := fun _ _ => rfl
      refine ⟨{ q with active := q.active.push (.hold last.finish (time - last.finish) last.target) }, ?_,
        .inr ⟨last, hlast, _, bridges_hold hlate.le, Array.toList_push ..⟩⟩
      simp only [add, Scalar.isFinite_eq, Scalar.zero_literal, hlast, hstart, hdur, Bool.not_true, Bool.false_or,
        decide_eq_true_eq]
      rw [if_neg (by linarith), if_neg (by linarith), if_neg (by linarith)]

theorem Trapezoid.segments_unbroken (t : Trapezoid F) : Unbroken t.segments := by
  unfold segments
  simp only [Scalar.zero_literal]
  split <;> split <;> split <;>
    simp_all [Unbroken, segments.after]

/-! ## Calls -/

/-- A call that changes a queue. -/
inductive Call (F : Type) where
  | add (s : Segment F)
  | append (t : Trapezoid F)
  | holdUntil (time : F)
  | finalize (time clear : F)
  | setPosition (time : F) (position : Coord F)

/-- The queue after a call, whether it is refused or not. -/
def run (q : Queue F) : Call F → Queue F
  | .add s =>
    match q.add s with
    | .ok q' => q'
    | .error _ => q
  | .append t => (q.append t).1
  | .holdUntil time =>
    match q.holdUntil time with
    | .ok q' => q'
    | .error _ => q
  | .finalize time clear => q.finalize time clear
  | .setPosition time position => q.setPosition time position

/-- A new queue after calls. -/
def after (calls : List (Call F)) : Queue F := calls.foldl run empty

/-- The segments that a call gives to a queue. -/
def Call.segments : Call F → List (Segment F)
  | .add s => [s]
  | .append t => t.segments
  | _ => []

/-- What a call may do to the segments of a queue. -/
def Call.Effect (row row' : List (Segment F)) : Call F → Prop
  | .add s => ∃ taken grown, taken <+: [s] ∧ Grows row.getLast? taken grown ∧ row' = row ++ grown
  | .append t => ∃ taken grown, taken <+: t.segments ∧ Grows row.getLast? taken grown ∧ row' = row ++ grown
  | .holdUntil time => row' = row ∨ ∃ last ∈ row.getLast?, ∃ h, Bridges last h time ∧ row' = row ++ [h]
  | .finalize .. | .setPosition .. => row' <:+ row

/-- Whether the segments of a call, if the queue takes them, begin where it ends. -/
def CarriesOn (q : Queue F) (c : Call F) : Prop :=
  ∀ s ∈ c.segments.head?, (q.add s).isOk → ∀ last ∈ q.active.back?, s.position = last.target

/-- Calls of which each continues the queue that those before it have left. -/
def Seamless (q : Queue F) : List (Call F) → Prop
  | [] => True
  | c :: rest => q.CarriesOn c ∧ (q.run c).Seamless rest

instance (q : Queue F) (c : Call F) : Decidable (q.CarriesOn c) :=
  inferInstanceAs (Decidable (∀ s ∈ c.segments.head?, _))

instance : ∀ (calls : List (Call F)) (q : Queue F), Decidable (q.Seamless calls)
  | [], _ => .isTrue trivial
  | c :: rest, q =>
    have := instDecidableSeamless rest (q.run c)
    inferInstanceAs (Decidable (q.CarriesOn c ∧ (q.run c).Seamless rest))

theorem run_add (q : Queue F) (s : Segment F) : q.run (.add s) = (q.addAll [s]).1 := by
  cases hadd : q.add s <;> simp [run, addAll, hadd]

theorem run_effect (q : Queue F) (c : Call F) : c.Effect q.active.toList (q.run c).active.toList := by
  cases c with
  | add s =>
    rw [run_add, Call.Effect, Array.getLast?_toList]
    exact addAll_grows [s] q
  | append t =>
    rw [Call.Effect, Array.getLast?_toList]
    exact addAll_grows t.segments q
  | holdUntil time =>
    obtain ⟨q', hq', hrow⟩ := holdUntil_row q time
    rw [Call.Effect, Array.getLast?_toList, run, hq']
    exact hrow
  | finalize time clear =>
    rw [Call.Effect, run, finalize_active]
    exact List.dropWhile_suffix _
  | setPosition time position =>
    rw [Call.Effect, run, setPosition, retire_active]
    exact List.dropWhile_suffix _

variable {c : Call F} {row row' : List (Segment F)}

theorem Call.Effect.linked (h : c.Effect row row') (hl : Linked row) : Linked row' := by
  have htaken : ∀ {taken grown}, Grows row.getLast? taken grown → Linked (row ++ grown) :=
    fun hg => hl.glue (hg.linked hl.last)
  cases c with
  | add s =>
    obtain ⟨taken, grown, -, hg, rfl⟩ := h
    exact htaken hg
  | append t =>
    obtain ⟨taken, grown, -, hg, rfl⟩ := h
    exact htaken hg
  | holdUntil time =>
    rcases h with rfl | ⟨last, hlast, u, hb, rfl⟩
    · exact hl
    · have hd := hl.duration_nonneg last (List.mem_of_getLast? hlast)
      refine hl.glue ?_
      rw [Option.mem_def.1 hlast]
      exact linked_pair hd hb.lasts (meets_of_eq hb.start)
  | finalize time clear => exact hl.suffix h
  | setPosition time position => exact hl.suffix h

theorem run_unbroken (h : Unbroken q.active.toList) (hc : q.CarriesOn c) : Unbroken (q.run c).active.toList := by
  have heffect := run_effect q c
  cases c with
  | add s =>
    rw [run_add]
    exact addAll_unbroken h (.singleton s) hc
  | append t => exact addAll_unbroken h t.segments_unbroken hc
  | holdUntil time =>
    rcases heffect with hrow | ⟨last, hlast, u, hb, hrow⟩
    · rwa [hrow]
    · rw [hrow]
      refine isChain_glue h ?_
      rw [Option.mem_def.1 hlast]
      exact .cons_cons hb.place (.singleton u)
  | finalize time clear => exact h.suffix heffect
  | setPosition time position => exact h.suffix heffect

theorem foldl_linked : ∀ (calls : List (Call F)) {q : Queue F}, Linked q.active.toList →
    Linked (calls.foldl run q).active.toList
  | [], _, h => h
  | c :: rest, q, h => foldl_linked rest ((run_effect q c).linked h)

theorem foldl_unbroken : ∀ (calls : List (Call F)) {q : Queue F}, Unbroken q.active.toList → q.Seamless calls →
    Unbroken (calls.foldl run q).active.toList
  | [], _, h, _ => h
  | _ :: rest, _, h, ⟨hc, hrest⟩ => foldl_unbroken rest (run_unbroken h hc) hrest

/-- After any calls the queue is linked, and whatever is called next adds holds only as they are described
here. If every call carries on where the queue ends, the queue is unbroken. -/
theorem after_linked (calls : List (Call F)) :
    Linked (after calls).active.toList ∧
    (∀ c : Call F, c.Effect (after calls).active.toList ((after calls).run c).active.toList) ∧
    (Seamless empty calls → Unbroken (after calls).active.toList) :=
  ⟨foldl_linked calls ⟨(fun _ hs => by cases hs), .nil⟩, run_effect _, foldl_unbroken calls .nil⟩

/-- Motion with a lead-in, a refused call, a gap, a hold and retired motion. -/
def tour : List (Call ℚ) :=
  [.append ⟨1, 1, 0, 1, ⟨0, 0, 0⟩, ⟨1, 0, 0⟩, 0, 2, 2⟩, .add ⟨2, 1, 1, 0, ⟨5, 5, 5⟩, ⟨0, 1, 0⟩, .cruise⟩,
    .add ⟨4, 1, 3, 0, ⟨2, 0, 0⟩, ⟨0, 1, 0⟩, .cruise⟩, .holdUntil 7, .finalize 2 0]

theorem after_linked_tour : Seamless empty tour ∧ Unbroken (after tour).active.toList := by
  have h : Seamless empty tour := by decide +kernel
  exact ⟨h, (after_linked tour).2.2 h⟩

example : (after tour).active.toList.map (fun s => (s.start, s.finish, s.position.x, s.position.y)) =
    [(2, 3, 1, 0), (3, 4, 2, 0), (4, 5, 2, 0), (5, 7, 2, 3)] := by decide +kernel

end Queue

end PrinterMotion
