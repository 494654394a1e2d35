/-
What becomes of motion that is queued in order of time. After any calls the record holds, in the order in which
they were queued, all motions that a queue has taken and all markers of declared positions, but for those that
have expired or lay behind a declared position, and cut short where one lay within them. As the record has its
ends in order, a search of it from the newest entry on may stop at the first one that ends too early.
-/
import PrinterMotion.Proofs.Motion.Record

namespace PrinterMotion

variable {F : Type} [Exact F]

theorem Segment.eq_of_upTo {s u : Segment F} {time : F} (h : s.upTo time = some u) (hd : s.duration = 0) : u = s := by
  unfold upTo at h
  split at h
  · rename_i hstart
    rw [if_neg (by rw [finish, hd, add_zero]; exact hstart.not_gt)] at h
    exact (Option.some.inj h).symm
  · cases h

namespace Queue

variable {q : Queue F} {c : Call F} {calls later : List (Call F)} {s : Segment F}

/-! ## Calls -/

/-- The times up to which a call brings segments into a queue. -/
def Call.ends : Call F → List F
  | .add s => [s.finish]
  | .append t => t.segments.map Segment.finish
  | .holdUntil time => [time]
  | .finalize .. | .setPosition .. => []

/-- Whether the segments of a call, if the queue takes them, begin when all that is queued or retired has ended,
and whether motion is left after them. -/
def InTime (q : Queue F) (c : Call F) : Prop :=
  (∀ s ∈ c.segments.head?, (q.add s).isOk → ∀ e ∈ q.entries, e.finish ≤ s.start) ∧ ∀ t ∈ c.ends, t ≤ never

/-- Calls of which each is in time for the queue that those before it have left. -/
def Timely (q : Queue F) : List (Call F) → Prop
  | [] => True
  | c :: rest => q.InTime c ∧ (q.run c).Timely rest

instance (q : Queue F) (c : Call F) : Decidable (q.InTime c) :=
  inferInstanceAs (Decidable ((∀ s ∈ c.segments.head?, _) ∧ _))

instance decidableTimely : ∀ (calls : List (Call F)) (q : Queue F), Decidable (q.Timely calls)
  | [], _ => .isTrue trivial
  | c :: rest, q =>
    have := decidableTimely rest (q.run c)
    inferInstanceAs (Decidable (q.InTime c ∧ (q.run c).Timely rest))

/-- What a call puts at the end of the record: a marker, or the motion that the queue takes. -/
def recorded (q : Queue F) : Call F → List (Segment F)
  | .setPosition time position => [.hold time 0.0 position]
  | c => (q.accepted c.segments).filter (!·.isStill)

/-- What may be left of an entry after a call. -/
inductive Call.Leaves : Call F → Segment F → Option (Segment F) → Prop where
  | same {c : Call F} {s : Segment F} (hc : ∀ time p, c ≠ .setPosition time p) : c.Leaves s (some s)
  | expired {time clear : F} {s : Segment F} (h : s.finish ≤ clear) : Leaves (.finalize time clear) s none
  | cut (time : F) (p : Coord F) (s : Segment F) : Leaves (.setPosition time p) s (s.upTo time)

theorem Ordered.run (h : q.Ordered) (hc : q.InTime c) : (q.run c).Ordered := by
  obtain ⟨hstart, hends⟩ := hc
  cases c with
  | add s =>
    cases hadd : q.add s with
    | error e => simpa [Queue.run, hadd] using h
    | ok q' =>
      simp only [Queue.run, hadd]
      exact (h.add hadd (hstart s rfl (by rw [hadd]; rfl)) (hends _ (List.mem_singleton_self _))).1
  | append t =>
    exact h.addAll t.segments_joined hstart fun s hs => hends _ (List.mem_map_of_mem hs)
  | holdUntil time =>
    rcases run_holdUntil q time with heq | ⟨last, hlast, hle, heq⟩
    · rwa [heq]
    · rw [heq]
      refine h.addAll (a := ⟨last.target, last.finish⟩) ⟨rfl, sub_nonneg.2 hle, trivial⟩
        (fun s hs _ => ?_) (List.forall_mem_singleton.2 ?_)
      · cases hs
        exact h.finish_le_back hlast
      · rw [Segment.finish_hold, add_sub_cancel]
        exact hends _ (List.mem_singleton_self _)
  | finalize time clear => exact h.finalize time clear
  | setPosition time position => exact h.setPosition time position

/-- A call leaves something or nothing of each entry, and records what it brings behind them. -/
theorem Ordered.run_record (h : q.Ordered) (c : Call F) : ∃ kept, List.Forall₂ c.Leaves q.record kept ∧
    (q.run c).record = kept.reduceOption ++ q.recorded c := by
  have hsame : (∀ time p, c ≠ .setPosition time p) → (q.run c).record = q.record ++ q.recorded c →
      ∃ kept, List.Forall₂ c.Leaves q.record kept ∧ (q.run c).record = kept.reduceOption ++ q.recorded c := by
    refine fun hc hrecord => ⟨q.record.map some, ?_, ?_⟩
    · exact List.forall₂_map_right_iff.2 (List.forall₂_same.2 fun s _ => .same hc)
    · simpa [List.reduceOption] using hrecord
  cases c with
  | add s =>
    refine hsame (fun _ _ h => by cases h) ?_
    rw [run_add, addAll_record]
    rfl
  | append t => exact hsame (fun _ _ h => by cases h) (addAll_record t.segments q)
  | holdUntil time =>
    refine hsame (fun _ _ h => by cases h) ?_
    have hnone : q.recorded (.holdUntil time) = [] := rfl
    rw [hnone, List.append_nil]
    rcases run_holdUntil q time with heq | ⟨last, -, -, heq⟩
    · rw [heq]
    · rw [heq, addAll_record, List.append_right_eq_self, List.filter_eq_nil_iff]
      intro s hs
      rw [accepted] at hs
      split at hs <;> simp_all [accepted, Segment.isStill, Segment.hold]
  | finalize time clear =>
    obtain ⟨gone, hsplit, hgone⟩ := q.finalize_record time clear
    refine ⟨gone.map (fun _ => none) ++ (q.finalize time clear).record.map some, ?_, ?_⟩
    · rw [hsplit]
      refine List.rel_append ?_ ?_
      · exact List.forall₂_map_right_iff.2 (List.forall₂_same.2 fun s hs => .expired (hgone s hs))
      · exact List.forall₂_map_right_iff.2 (List.forall₂_same.2 fun s _ => .same fun _ _ h => by cases h)
    · simp [List.reduceOption, Queue.run, recorded, accepted, Call.segments]
  | setPosition time position =>
    refine ⟨q.record.map (·.upTo time), ?_, ?_⟩
    · exact List.forall₂_map_right_iff.2 (List.forall₂_same.2 fun s _ => .cut time position s)
    · rw [Queue.run, h.setPosition_record, List.reduceOption, List.filterMap_map]
      rfl

/-! ## Runs -/

/-- Every entry of the record that calls bring, with the calls that come later. -/
def recordedBy (q : Queue F) : List (Call F) → List (Segment F × List (Call F))
  | [] => []
  | c :: rest => (q.recorded c).map (·, rest) ++ (q.run c).recordedBy rest

/-- What has become of an entry of the record after later calls. -/
inductive Fate : Segment F → List (Call F) → Option (Segment F) → Prop where
  | now (s : Segment F) : Fate s [] (some s)
  | gone {c : Call F} {s : Segment F} {rest : List (Call F)} (h : c.Leaves s none) : Fate s (c :: rest) none
  | on {c : Call F} {s u : Segment F} {rest : List (Call F)} {r : Option (Segment F)} (h : c.Leaves s (some u))
      (hr : Fate u rest r) : Fate s (c :: rest) r

/-- What is left of an entry moves if the entry does, and a marker is left as it was. -/
theorem Fate.left {u : Segment F} (h : Fate s later (some u)) :
    u.isStill = s.isStill ∧ (s.duration = 0 → u = s) := by
  obtain ⟨r, hr⟩ : ∃ r, r = some u := ⟨_, rfl⟩
  rw [← hr] at h
  induction h with
  | now s =>
    cases hr
    exact ⟨rfl, fun _ => rfl⟩
  | gone h => cases hr
  | @on c s v rest r h hr' ih =>
    obtain ⟨hstill, hmark⟩ := ih hr
    generalize hv : some v = left at h
    cases h with
    | same hc =>
      cases hv
      exact ⟨hstill, hmark⟩
    | expired h => cases hv
    | cut time p s =>
      refine ⟨hstill.trans (Segment.upTo_spec hv.symm).2.1, fun hd => ?_⟩
      obtain rfl := Segment.eq_of_upTo hv.symm hd
      exact hmark hd

/-- What becomes of the entries that a call leaves is what becomes of those there were before. -/
theorem fates_before {row : List (Segment F)} {kept fates : List (Option (Segment F))}
    (h : List.Forall₂ c.Leaves row kept) {new : List (Segment F × List (Call F))}
    (hf : List.Forall₂ (fun e r => Fate e.1 e.2 r) (kept.reduceOption.map (·, calls) ++ new) fates) :
    ∃ fates', List.Forall₂ (fun e r => Fate e.1 e.2 r) (row.map (·, c :: calls) ++ new) fates' ∧
      fates'.reduceOption = fates.reduceOption := by
  induction h generalizing fates with
  | nil => exact ⟨fates, hf, rfl⟩
  | @cons s r row kept hs _ ih =>
    cases r with
    | none =>
      obtain ⟨fates', hf', heq⟩ := ih hf
      exact ⟨none :: fates', .cons (.gone hs) hf', heq⟩
    | some u =>
      rw [List.reduceOption_cons_of_some, List.map_cons] at hf
      cases hf with
      | @cons _ r _ fates hu hrest =>
        obtain ⟨fates', hf', heq⟩ := ih hrest
        refine ⟨r :: fates', .cons (.on hs hu) hf', ?_⟩
        cases r with
        | none => exact heq
        | some v => rw [List.reduceOption_cons_of_some, List.reduceOption_cons_of_some, heq]

/-- The record after a run is what has become of all entries there were before it or have come with it. -/
theorem Ordered.fates : ∀ {calls : List (Call F)} {q : Queue F}, q.Ordered → q.Timely calls →
    (calls.foldl Queue.run q).Ordered ∧ ∃ fates,
      List.Forall₂ (fun e r => Fate e.1 e.2 r) (q.record.map (·, calls) ++ q.recordedBy calls) fates ∧
        (calls.foldl Queue.run q).record = fates.reduceOption
  | [], q, h, _ => by
    refine ⟨h, q.record.map some, ?_, ?_⟩
    · rw [recordedBy, List.append_nil, List.forall₂_map_left_iff, List.forall₂_map_right_iff]
      exact List.forall₂_same.2 fun s _ => .now s
    · simp [List.reduceOption]
  | c :: rest, q, h, ⟨hc, hrest⟩ => by
    obtain ⟨hordered, fates, hfates, hrecord⟩ := Ordered.fates (h.run hc) hrest
    obtain ⟨kept, hkept, hrun⟩ := h.run_record c
    rw [hrun, List.map_append, List.append_assoc] at hfates
    obtain ⟨fates', hfates', heq⟩ := fates_before hkept hfates
    exact ⟨hordered, fates', hfates', hrecord.trans heq.symm⟩

/-- What calls record moves, or is a marker of a declared position. -/
theorem still_recordedBy : ∀ {calls : List (Call F)} {q : Queue F}, ∀ e ∈ q.recordedBy calls, e.1.isStill →
    ∃ time p, .setPosition time p ∈ calls ∧ e.1 = .hold time 0.0 p
  | c :: rest, q, e, he, hstill => by
    rcases List.mem_append.1 he with he | he
    · obtain ⟨s, hs, rfl⟩ := List.mem_map.1 he
      cases c with
      | setPosition time p => exact ⟨time, p, List.mem_cons_self, List.mem_singleton.1 hs⟩
      | _ =>
        have hmove := (List.mem_filter.1 hs).2
        simp [show s.isStill from hstill] at hmove
    · obtain ⟨time, p, hmem, heq⟩ := still_recordedBy e he hstill
      exact ⟨time, p, List.mem_cons_of_mem _ hmem, heq⟩

/-! ## Searches -/

/-- Where all in front of an element with `p` have `p`, taking as long as there is `p` takes all that have it. -/
theorem takeWhile_eq_filter {α : Type} {p : α → Bool} {l : List α} (h : l.Pairwise fun a b => p b → p a) :
    l.takeWhile p = l.filter p := by
  induction l with
  | nil => rfl
  | cons a rest ih =>
    obtain ⟨hhead, hrest⟩ := List.pairwise_cons.1 h
    cases ha : p a with
    | true => rw [List.takeWhile_cons_of_pos ha, List.filter_cons_of_pos ha, ih hrest]
    | false =>
      rw [List.takeWhile_cons_of_neg (by simp [ha]), List.filter_cons_of_neg (by simp [ha]), eq_comm,
        List.filter_eq_nil_iff]
      intro b hb hpb
      have hpa := hhead b hb hpb
      rw [ha] at hpa
      cases hpa

/-- A search finds the newest entries that overlap the interval. -/
theorem Ordered.recent_eq (h : q.Ordered) (limit : Nat) (from_ till : F) : q.recent limit from_ till =
    (q.entries.reverse.filter fun s => decide (s.start ≤ till ∧ from_ ≤ s.finish)).take limit := by
  have hrow : q.active.toList.reverse ++ q.history = q.entries.reverse := by
    rw [entries, List.reverse_append, List.reverse_reverse]
  have hsorted : q.entries.reverse.Pairwise fun s u => u.finish ≤ s.finish := List.pairwise_reverse.2 h.finish_le
  have hinterval : ∀ s : Segment F, (!decide (s.finish < from_) && !decide (till < s.start)) =
      decide (s.start ≤ till ∧ from_ ≤ s.finish) := by
    intro s
    rw [Bool.eq_iff_iff]
    simp [and_comm]
  simp only [recent]
  rw [hrow, takeWhile_eq_filter, List.filter_filter, List.filter_congr fun s _ => hinterval s]
  refine (hsorted.sublist List.filter_sublist).imp fun {s u} hle hu => ?_
  simp only [Bool.not_eq_true', decide_eq_false_iff_not, not_lt] at hu ⊢
  exact hu.trans hle

/-- With calls in time, all motion and all markers that a queue has taken are in its record, in the order in
which they came, but for what has become of them by later calls. The history has no entry that stands still but
the markers, retirement takes no newest entry from it, and a search finds the newest entries that overlap an
interval. -/
theorem record_after (calls : List (Call F)) (h : Timely empty calls) :
    (∃ fates, List.Forall₂ (fun e r => Fate e.1 e.2 r) (recordedBy empty calls) fates ∧
      (after calls).record = fates.reduceOption) ∧
    (∀ s ∈ (after calls).history, s.isStill → ∃ time p, .setPosition time p ∈ calls ∧ s = .hold time 0.0 p) ∧
    (∀ time clear, ((after calls).finalize time clear).history.head? = ((after calls).retire time).history.head?) ∧
    ∀ limit from_ till, (after calls).recent limit from_ till =
      (((after calls).active.toList.reverse ++ (after calls).history).filter fun s =>
        decide (s.start ≤ till ∧ from_ ≤ s.finish)).take limit := by
  obtain ⟨hordered, fates, hfates, hrecord⟩ := ordered_empty.fates h
  refine ⟨⟨fates, hfates, hrecord⟩, fun s hs hstill => ?_, fun time clear => ?_, fun limit from_ till => ?_⟩
  · have hmem : some s ∈ fates := by
      rw [← List.reduceOption_mem_iff, ← hrecord]
      exact List.mem_append_left _ (List.mem_reverse.2 hs)
    obtain ⟨e, he, hfate⟩ := exists_of_forall₂ hfates _ hmem
    obtain ⟨hmove, hmark⟩ := hfate.left
    obtain ⟨time, p, hcall, heq⟩ := still_recordedBy e he (hmove ▸ hstill)
    refine ⟨time, p, hcall, (hmark ?_).trans heq⟩
    rw [heq]
    exact Scalar.zero_literal
  · obtain ⟨-, -, -, hlast⟩ := expire_spec clear ((after calls).retire time).history.reverse
    rw [← finalize_history, List.getLast?_reverse, List.getLast?_reverse] at hlast
    exact hlast
  · have hsearch := Ordered.recent_eq (q := after calls) hordered limit from_ till
    rwa [entries, List.reverse_append, List.reverse_reverse] at hsearch

/-- Motion that is retired, cut short by a declared position and in part expired, and motion behind it. -/
def shift : List (Call ℚ) :=
  [.append ⟨1, 1, 0, 1, ⟨0, 0, 0⟩, ⟨1, 0, 0⟩, 0, 2, 2⟩, .finalize 2 0, .setPosition (5 / 2) ⟨9, 0, 0⟩,
    .add ⟨4, 1, 3, 0, ⟨9, 0, 0⟩, ⟨0, 1, 0⟩, .cruise⟩, .finalize 4 2]

theorem record_after_shift : Timely empty shift ∧ ∃ fates,
    List.Forall₂ (fun e r => Fate e.1 e.2 r) (recordedBy empty shift) fates ∧
      (after shift).record = fates.reduceOption := by
  have h : Timely empty shift := by decide +kernel
  exact ⟨h, (record_after shift h).1⟩

example : (after shift).record.map (fun s => (s.start, s.finish, s.position.x)) =
    [(2, 5 / 2, 1), (5 / 2, 5 / 2, 9), (4, 5, 9)] := by decide +kernel

end Queue

end PrinterMotion
