/-
The record of a queue: its retired segments and behind them the queued ones that move, the oldest first. A call
puts the motion that it brings at the end of the record. Retiring moves entries from the queue into its history
and leaves the record as it is, so an entry goes only when history expires or a position is declared, and a
declared position is all that cuts an entry short. With motion that is queued in order of time nothing else can
happen to it, whatever is called later.
-/
import PrinterMotion.Proofs.Motion.Linked
import Mathlib.Data.List.ReduceOption

namespace PrinterMotion

variable {F : Type} [Exact F]

/-- What is left of a segment when all motion from `time` on is forgotten. -/
def Segment.upTo (s : Segment F) (time : F) : Option (Segment F) :=
  if s.start < time then some (if time < s.finish then { s with duration := time - s.start } else s) else none

theorem Segment.upTo_of_finish_le {s : Segment F} {time : F} (hs : s.start < time) (hf : s.finish ≤ time) :
    s.upTo time = some s := by
  rw [upTo, if_pos hs, if_neg (not_lt.2 hf)]

theorem Segment.upTo_of_le_start {s : Segment F} {time : F} (hs : time ≤ s.start) : s.upTo time = none := by
  rw [upTo, if_neg (not_lt.2 hs)]

/-- What is left begins where the segment does, and ends with it and by the time. -/
theorem Segment.upTo_spec {s u : Segment F} {time : F} (h : s.upTo time = some u) :
    u.start = s.start ∧ u.isStill = s.isStill ∧ u.finish ≤ s.finish ∧ u.finish ≤ time ∧
      (0 ≤ s.duration → 0 ≤ u.duration) := by
  unfold upTo at h
  split at h
  · rename_i hstart
    cases h
    split
    · rename_i hfinish
      have hcut : s.start + (time - s.start) = time := add_sub_cancel s.start time
      exact ⟨rfl, rfl, hcut.trans_le hfinish.le, hcut.le, fun _ => sub_nonneg.2 hstart.le⟩
    · rename_i hfinish
      exact ⟨rfl, rfl, le_refl _, not_lt.1 hfinish, id⟩
  · cases h

/-- In front of a segment stands at most one segment, which does not move and ends when that begins. -/
theorem Fills.front_cases {s : Segment F} {last : Option (Segment F)} {front : List (Segment F)}
    (h : Fills last s front) : front = [] ∨ ∃ u, front = [u] ∧ u.isStill ∧ 0 ≤ u.duration ∧ u.finish = s.start := by
  have hstill : ∀ a d p, (Segment.hold a d p : Segment F).isStill := fun a d p => by
    simp [Segment.isStill, Segment.hold]
  cases h with
  | leadIn hl => exact .inr ⟨_, rfl, hl.still ▸ hstill _ _ _, hl.lasts ▸ zero_le_one, hl.finish⟩
  | gap hb => exact .inr ⟨_, rfl, hb.still ▸ hstill _ _ _, hb.lasts, hb.finish⟩
  | meet hm => exact .inl rfl

namespace Queue

variable {q q' : Queue F} {s : Segment F}

/-- Retired and queued segments, the oldest first. -/
def entries (q : Queue F) : List (Segment F) := q.history.reverse ++ q.active.toList

/-- Retired segments, and behind them the queued ones that move. -/
def record (q : Queue F) : List (Segment F) := q.history.reverse ++ q.active.toList.filter (!·.isStill)

theorem record_sublist (q : Queue F) : q.record.Sublist q.entries :=
  (List.Sublist.refl _).append List.filter_sublist

/-! ## Motion in order of time -/

/-- The motion of the record follows each other, and every entry lasts and ends by the end of the next one. -/
structure Ordered (q : Queue F) : Prop where
  follows : q.record.Pairwise fun s u => s.finish ≤ u.start
  finish_le : q.entries.Pairwise fun s u => s.finish ≤ u.finish
  duration_nonneg : ∀ s ∈ q.entries, 0 ≤ s.duration
  le_never : ∀ s ∈ q.active.toList, s.finish ≤ never

theorem ordered_empty : (empty : Queue F).Ordered := ⟨.nil, .nil, List.forall_mem_nil _, List.forall_mem_nil _⟩

/-- A queue stays ordered with one more segment that ends last, and begins last if it moves. -/
theorem Ordered.push (h : q.Ordered) (hhist : q'.history = q.history)
    (hrow : q'.active.toList = q.active.toList ++ [s]) (hd : 0 ≤ s.duration) (hnever : s.finish ≤ never)
    (hends : ∀ e ∈ q.entries, e.finish ≤ s.finish)
    (hstart : s.isStill = false → ∀ e ∈ q.entries, e.finish ≤ s.start) : q'.Ordered := by
  have hrecord : q'.record = q.record ++ [s].filter (!·.isStill) := by
    rw [record, hhist, hrow, List.filter_append, ← List.append_assoc, ← record]
  have hentries : q'.entries = q.entries ++ [s] := by
    rw [entries, hhist, hrow, ← List.append_assoc, ← entries]
  refine ⟨?_, ?_, ?_, ?_⟩
  · rw [hrecord, List.pairwise_append]
    refine ⟨h.follows, (List.pairwise_singleton _ s).sublist List.filter_sublist, fun e he u hu => ?_⟩
    obtain ⟨hu, hmove⟩ := List.mem_filter.1 hu
    obtain rfl := List.mem_singleton.1 hu
    exact hstart (by simpa using hmove) e (q.record_sublist.subset he)
  · rw [hentries, List.pairwise_append]
    exact ⟨h.finish_le, List.pairwise_singleton _ s, fun e he u hu => List.mem_singleton.1 hu ▸ hends e he⟩
  · rw [hentries]
    exact List.forall_mem_append.2 ⟨h.duration_nonneg, List.forall_mem_singleton.2 hd⟩
  · rw [hrow]
    exact List.forall_mem_append.2 ⟨h.le_never, List.forall_mem_singleton.2 hnever⟩

/-! ## Queueing -/

/-- The segments that a queue takes, up to the first that it refuses. -/
def accepted (q : Queue F) : List (Segment F) → List (Segment F)
  | [] => []
  | s :: rest =>
    match q.add s with
    | .ok q' => s :: q'.accepted rest
    | .error _ => []

theorem add_history (h : q.add s = .ok q') : q'.history = q.history := by
  simp only [add] at h
  repeat' split at h
  all_goals cases h
  all_goals rfl

theorem add_record (h : q.add s = .ok q') : q'.record = q.record ++ [s].filter (!·.isStill) := by
  obtain ⟨-, front, hfront, hrow⟩ := add_grows h
  have hstill : front.filter (!·.isStill) = [] := by
    rcases hfront.front_cases with rfl | ⟨u, rfl, hu, -⟩
    · rfl
    · simp [hu]
  rw [record, record, add_history h, hrow, List.filter_append, List.filter_append, hstill, List.nil_append,
    List.append_assoc]

/-- A segment that begins when all that is queued or retired has ended leaves the queue ordered. -/
theorem Ordered.add (h : q.Ordered) (hadd : q.add s = .ok q') (hstart : ∀ e ∈ q.entries, e.finish ≤ s.start)
    (hnever : s.finish ≤ never) : q'.Ordered ∧ ∀ e ∈ q'.entries, e.finish ≤ s.finish := by
  obtain ⟨hd, front, hfront, hrow⟩ := add_grows hadd
  have hfinish := Segment.start_le_finish hd
  have hhist := add_history hadd
  rcases hfront.front_cases with rfl | ⟨u, rfl, hu, hud, huf⟩
  · have hends : ∀ e ∈ q.entries, e.finish ≤ s.finish := fun e he => (hstart e he).trans hfinish
    refine ⟨h.push hhist hrow hd hnever hends fun _ => hstart, ?_⟩
    rw [entries, hhist, hrow, List.nil_append, ← List.append_assoc, ← entries]
    exact List.forall_mem_append.2 ⟨hends, List.forall_mem_singleton.2 (le_refl _)⟩
  · -- The segment in front is queued first, and the queue is ordered with it.
    let mid : Queue F := { q with active := q.active.push u }
    have hmidrow : mid.active.toList = q.active.toList ++ [u] := Array.toList_push ..
    have hmid : mid.Ordered := h.push rfl hmidrow hud (huf.trans_le (hfinish.trans hnever))
      (fun e he => huf ▸ hstart e he) fun hmove => by simp [hu] at hmove
    have hmidstart : ∀ e ∈ mid.entries, e.finish ≤ s.start := by
      rw [entries, hmidrow, ← List.append_assoc]
      exact List.forall_mem_append.2 ⟨hstart, List.forall_mem_singleton.2 huf.le⟩
    have hends : ∀ e ∈ mid.entries, e.finish ≤ s.finish := fun e he => (hmidstart e he).trans hfinish
    have hrow' : q'.active.toList = mid.active.toList ++ [s] := by
      rw [hrow, hmidrow, List.append_assoc]
    refine ⟨hmid.push hhist hrow' hd hnever hends fun _ => hmidstart, ?_⟩
    rw [entries, hhist, hrow', ← List.append_assoc]
    exact List.forall_mem_append.2 ⟨hends, List.forall_mem_singleton.2 (le_refl _)⟩

theorem addAll_record : ∀ (segs : List (Segment F)) (q : Queue F),
    (q.addAll segs).1.record = q.record ++ (q.accepted segs).filter (!·.isStill)
  | [], q => (List.append_nil _).symm
  | s :: rest, q => by
    cases hadd : q.add s with
    | error e => simp [addAll, accepted, hadd]
    | ok q' =>
      simp only [addAll, accepted, hadd]
      rw [addAll_record rest q', add_record hadd, List.append_assoc, ← List.filter_append]
      rfl

/-- The same holds of segments that follow each other, if the first one begins late enough. -/
theorem Ordered.addAll : ∀ {segs : List (Segment F)} {q : Queue F} {a : Stand F}, q.Ordered → Joined a segs →
    (∀ s ∈ segs.head?, (q.add s).isOk → ∀ e ∈ q.entries, e.finish ≤ s.start) → (∀ s ∈ segs, s.finish ≤ never) →
      (q.addAll segs).1.Ordered
  | [], _, _, h, _, _, _ => h
  | s :: rest, q, a, h, ⟨_, _, hrest⟩, hstart, hnever => by
    cases hadd : q.add s with
    | error e => simpa [Queue.addAll, hadd] using h
    | ok q' =>
      obtain ⟨hq', hends⟩ := h.add hadd (hstart s rfl (by rw [hadd]; rfl)) (hnever s List.mem_cons_self)
      simp only [Queue.addAll, hadd]
      refine Ordered.addAll hq' hrest (fun u hu _ e he => ?_) fun u hu => hnever u (List.mem_cons_of_mem _ hu)
      exact (hends e he).trans (hrest.le_start u (List.mem_of_mem_head? hu))

/-- A queue that holds takes one more segment that does not move and begins when the last one ends. -/
theorem run_holdUntil (q : Queue F) (time : F) : q.run (.holdUntil time) = q ∨
    ∃ last ∈ q.active.back?, last.finish ≤ time ∧
      q.run (.holdUntil time) = (q.addAll [.hold last.finish (time - last.finish) last.target]).1 := by
  cases hback : q.active.back? with
  | none => exact .inl (by simp [run, holdUntil, hback])
  | some last =>
    by_cases hle : time ≤ last.finish
    · exact .inl (by simp [run, holdUntil, hback, hle])
    · refine .inr ⟨last, rfl, (not_le.1 hle).le, ?_⟩
      rw [← run_add]
      simp only [run, holdUntil, hback, if_neg hle]

theorem Ordered.finish_le_back (h : q.Ordered) {last : Segment F} (hlast : last ∈ q.active.back?) :
    ∀ e ∈ q.entries, e.finish ≤ last.finish := by
  rw [Option.mem_def, ← Array.getLast?_toList] at hlast
  obtain ⟨init, hinit⟩ := List.getLast?_eq_some_iff.1 hlast
  have hentries : q.entries = (q.history.reverse ++ init) ++ [last] := by
    rw [entries, hinit, List.append_assoc]
  have hsorted := h.finish_le
  rw [hentries, List.pairwise_append] at hsorted
  rw [hentries]
  exact List.forall_mem_append.2 ⟨fun e he => hsorted.2.2 e he last (List.mem_singleton_self _),
    List.forall_mem_singleton.2 (le_refl _)⟩

/-! ## Retiring -/

theorem Ordered.sublist (h : q.Ordered) (hrecord : q'.record.Sublist q.record)
    (hentries : q'.entries.Sublist q.entries) (hactive : q'.active.toList.Sublist q.active.toList) : q'.Ordered :=
  ⟨h.follows.sublist hrecord, h.finish_le.sublist hentries, fun s hs => h.duration_nonneg s (hentries.subset hs),
    fun s hs => h.le_never s (hactive.subset hs)⟩

/-- The retired segments that move come to stand behind the history. -/
theorem retire_history (q : Queue F) (time : F) : (q.retire time).history.reverse = q.history.reverse ++
    (q.active.toList.takeWhile fun s => decide (s.finish ≤ time)).filter (!·.isStill) := by
  have hfold : ∀ (gone history : List (Segment F)),
      (gone.foldl (fun h s => if s.isStill then h else s :: h) history).reverse =
        history.reverse ++ gone.filter (!·.isStill) := by
    intro gone
    induction gone with
    | nil => exact fun history => (List.append_nil _).symm
    | cons s rest ih =>
      intro history
      rw [List.foldl_cons, ih]
      cases hs : s.isStill <;> simp [hs]
  simp only [retire, Array.toList_takeWhile]
  exact hfold _ _

theorem retire_record (q : Queue F) (time : F) : (q.retire time).record = q.record := by
  rw [record, retire_history, retire_active, List.append_assoc, ← List.filter_append,
    List.takeWhile_append_dropWhile, ← record]

theorem retire_entries (q : Queue F) (time : F) : (q.retire time).entries.Sublist q.entries := by
  rw [entries, retire_history, retire_active, List.append_assoc]
  refine (List.Sublist.refl _).append ?_
  conv_rhs => rw [← List.takeWhile_append_dropWhile (l := q.active.toList)
    (p := fun s => decide (s.finish ≤ time))]
  exact List.filter_sublist.append (List.Sublist.refl _)

theorem Ordered.retire (h : q.Ordered) (time : F) : (q.retire time).Ordered := by
  refine h.sublist ?_ (q.retire_entries time) ?_
  · rw [retire_record]
  · rw [retire_active]
    exact List.dropWhile_sublist _

/-- What expires ends by the given time. The rest is as it was, with the newest entry. -/
theorem expire_spec (clear : F) : ∀ (l : List (Segment F)), ∃ gone, l = gone ++ expire clear l ∧
    (∀ s ∈ gone, s.finish ≤ clear) ∧ (expire clear l).getLast? = l.getLast?
  | [] => ⟨[], rfl, List.forall_mem_nil _, rfl⟩
  | [s] => ⟨[], rfl, List.forall_mem_nil _, rfl⟩
  | s :: t :: rest => by
    by_cases hs : s.finish ≤ clear
    · obtain ⟨gone, hsplit, hgone, hlast⟩ := expire_spec clear (t :: rest)
      refine ⟨s :: gone, ?_, List.forall_mem_cons.2 ⟨hs, hgone⟩, ?_⟩
      · rw [expire, if_pos hs, List.cons_append, ← hsplit]
      · rw [expire, if_pos hs, hlast, List.getLast?_cons_cons]
    · exact ⟨[], by rw [expire, if_neg hs]; rfl, List.forall_mem_nil _, by rw [expire, if_neg hs]⟩

theorem finalize_history (q : Queue F) (time clear : F) :
    (q.finalize time clear).history.reverse = expire clear (q.retire time).history.reverse := by
  simp only [finalize, List.reverse_reverse]

theorem finalize_record (q : Queue F) (time clear : F) : ∃ gone, q.record = gone ++ (q.finalize time clear).record ∧
    ∀ s ∈ gone, s.finish ≤ clear := by
  obtain ⟨gone, hsplit, hgone, -⟩ := expire_spec clear (q.retire time).history.reverse
  refine ⟨gone, ?_, hgone⟩
  rw [← retire_record q time, record, record, finalize_history, ← List.append_assoc, ← hsplit]
  rfl

theorem Ordered.finalize (h : q.Ordered) (time clear : F) : (q.finalize time clear).Ordered := by
  obtain ⟨gone, hsplit, -⟩ := expire_spec clear (q.retire time).history.reverse
  have hexpire : (expire clear (q.retire time).history.reverse).Sublist (q.retire time).history.reverse := by
    conv_rhs => rw [hsplit]
    exact List.sublist_append_right _ _
  refine (h.retire time).sublist ?_ ?_ (List.Sublist.refl _)
  · rw [record, finalize_history]
    exact hexpire.append (List.Sublist.refl _)
  · rw [entries, finalize_history]
    exact hexpire.append (List.Sublist.refl _)

/-! ## Declared positions -/

/-- Cutting a history, the newest first, leaves of each entry what lies before the time. -/
theorem cutHistory_reverse (time : F) {history : List (Segment F)}
    (h : history.Pairwise fun u s => s.finish ≤ u.start) (hd : ∀ s ∈ history, 0 ≤ s.duration) :
    (cutHistory time history).reverse = history.reverse.filterMap (·.upTo time) := by
  induction history with
  | nil => rfl
  | cons s rest ih =>
    obtain ⟨hbefore, hrest⟩ := List.pairwise_cons.1 h
    obtain ⟨-, hdrest⟩ := List.forall_mem_cons.1 hd
    rw [List.reverse_cons, List.filterMap_append]
    by_cases hs : s.start < time
    · -- What is older ends before the time, so it stays as it is.
      have hkeep : rest.reverse.filterMap (·.upTo time) = rest.reverse := by
        rw [List.filterMap_congr (g := some), List.filterMap_some]
        intro u hu
        have hu' := List.mem_reverse.1 hu
        have hend := hbefore u hu'
        exact Segment.upTo_of_finish_le (((Segment.start_le_finish (hdrest u hu')).trans hend).trans_lt hs)
          (hend.trans hs.le)
      rw [hkeep, cutHistory, if_pos hs]
      split <;> simp [Segment.upTo, *]
    · rw [cutHistory, if_neg hs, ih hrest hdrest]
      simp [Segment.upTo_of_le_start (not_lt.1 hs)]

theorem Ordered.retire_never (h : q.Ordered) : (q.retire never).active.toList = [] := by
  rw [retire_active, List.dropWhile_eq_nil_iff]
  exact fun s hs => decide_eq_true (h.le_never s hs)

/-- The record behind a declared position: what was recorded before its time, and a marker. -/
theorem Ordered.setPosition_record (h : q.Ordered) (time : F) (p : Coord F) :
    (q.setPosition time p).record = q.record.filterMap (·.upTo time) ++ [.hold time 0.0 p] := by
  have hretire := h.retire never
  have hrecord : q.record = (q.retire never).history.reverse := by
    rw [← retire_record q never, record, h.retire_never, List.filter_nil, List.append_nil]
  have hfollows : (q.retire never).history.Pairwise fun u s => s.finish ≤ u.start := by
    rw [← List.pairwise_reverse, ← hrecord]
    exact h.follows
  have hcut := cutHistory_reverse time hfollows fun s hs =>
    hretire.duration_nonneg s (List.mem_append_left _ (List.mem_reverse.2 hs))
  rw [record, setPosition, h.retire_never, List.reverse_cons, hcut, hrecord]
  exact List.append_nil _

theorem Ordered.setPosition (h : q.Ordered) (time : F) (p : Coord F) : (q.setPosition time p).Ordered := by
  have hactive : (q.setPosition time p).active.toList = [] := h.retire_never
  have hentries : (q.setPosition time p).entries = (q.setPosition time p).record := by
    rw [entries, record, hactive, List.filter_nil]
  have hrecord := h.setPosition_record time p
  have hduration : ∀ s ∈ (q.setPosition time p).record, 0 ≤ s.duration := by
    rw [hrecord]
    refine List.forall_mem_append.2 ⟨fun u hu => ?_, List.forall_mem_singleton.2 ?_⟩
    · obtain ⟨s, hs, hcut⟩ := List.mem_filterMap.1 hu
      exact (Segment.upTo_spec hcut).2.2.2.2 (h.duration_nonneg s (q.record_sublist.subset hs))
    · exact Scalar.zero_literal.ge
  have hfollows : (q.setPosition time p).record.Pairwise fun s u => s.finish ≤ u.start := by
    rw [hrecord, List.pairwise_append]
    refine ⟨?_, List.pairwise_singleton _ _, fun u hu m hm => ?_⟩
    · refine h.follows.filterMap _ fun s s' hss u hu u' hu' => ?_
      obtain ⟨-, -, hfinish, -⟩ := Segment.upTo_spec hu
      rw [(Segment.upTo_spec hu').1]
      exact hfinish.trans hss
    · obtain ⟨s, -, hcut⟩ := List.mem_filterMap.1 hu
      rw [List.mem_singleton.1 hm]
      exact (Segment.upTo_spec hcut).2.2.2.1
  refine ⟨hfollows, ?_, hentries ▸ hduration, by rw [hactive]; exact List.forall_mem_nil _⟩
  rw [hentries]
  exact hfollows.imp_of_mem fun hs hu hsu => hsu.trans (Segment.start_le_finish (hduration _ hu))

end Queue

end PrinterMotion
