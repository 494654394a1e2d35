/-
The searches of one flush do not overlap. Segments are visited in the order of the queue; a lead-in goes
back over segments that were skipped, and on the one that was searched as a trailing segment it begins
where that search ended.
-/
import PrinterMotion.Proofs.Stepper.Search
import PrinterMotion.Stepper.Scan

namespace PrinterMotion

variable {F : Type} [Exact F]

/-! ## Rows of segments that meet -/

/-- Segments of which each begins exactly where the one before it ends. -/
structure Contiguous (segs : Array (Segment F)) : Prop where
  duration_nonneg : ∀ (i : Nat) (m : Segment F), segs[i]? = some m → 0 ≤ m.duration
  meets : ∀ (i : Nat) (m n : Segment F), segs[i]? = some m → segs[i + 1]? = some n → n.start = m.finish

namespace Contiguous

variable {segs : Array (Segment F)}

theorem start_le_finish (h : Contiguous segs) {i : Nat} {m : Segment F} (hm : segs[i]? = some m) :
    m.start ≤ m.finish := by
  have := h.duration_nonneg i m hm
  unfold Segment.finish
  linarith

omit [Exact F] in
theorem exists_of_le {i j : Nat} {n : Segment F} (hn : segs[j]? = some n) (hij : i ≤ j) :
    ∃ m, segs[i]? = some m := by
  obtain ⟨hj, -⟩ := Array.getElem?_eq_some_iff.1 hn
  exact ⟨_, Array.getElem?_eq_getElem (hij.trans_lt hj)⟩

/-- Of two segments the earlier one ends before the later one begins. -/
theorem finish_le_start (h : Contiguous segs) {i j : Nat} {m n : Segment F} (hm : segs[i]? = some m)
    (hn : segs[j]? = some n) (hij : i < j) : m.finish ≤ n.start := by
  induction j generalizing n with
  | zero => omega
  | succ j ih =>
    rcases Nat.lt_succ_iff_lt_or_eq.1 hij with hlt | rfl
    · obtain ⟨o, ho⟩ := exists_of_le hn (Nat.le_succ j)
      rw [h.meets j o n ho hn]
      exact (ih ho hlt).trans (h.start_le_finish ho)
    · exact (h.meets i m n hm hn).ge

theorem start_le_start (h : Contiguous segs) {i j : Nat} {m n : Segment F} (hm : segs[i]? = some m)
    (hn : segs[j]? = some n) (hij : i ≤ j) : m.start ≤ n.start := by
  rcases hij.lt_or_eq with hlt | rfl
  · exact (h.start_le_finish hm).trans (h.finish_le_start hm hn hlt)
  · rw [hm] at hn; cases hn; exact le_refl _

end Contiguous

/-! ## Ranges of visits -/

namespace Visit

/-- Where the search of a segment begins. -/
def lower (v : Visit F) (m : Segment F) : F := max v.start m.start

/-- Where the search of a segment ends. -/
def upper (v : Visit F) (m : Segment F) : F := min v.stop m.finish

/-- How far searches have come after one more visit. -/
def reached (segs : Array (Segment F)) (b : F) (v : Visit F) : F :=
  match segs[v.segment]? with
  | some m => if v.lower m < v.upper m then v.upper m else b
  | none => b

/-- Visits that are not behind `b` nor behind each other, and go no further than `time`. -/
def Ordered (segs : Array (Segment F)) (time : F) : F → List (Visit F) → Prop
  | _, [] => True
  | b, v :: vs =>
    (∀ m, segs[v.segment]? = some m → v.lower m < v.upper m → b ≤ v.lower m ∧ v.upper m ≤ time) ∧
      Ordered segs time (reached segs b v) vs

theorem ordered_append {segs : Array (Segment F)} {time : F} : ∀ {b : F} {vs ws : List (Visit F)},
    Ordered segs time b vs → Ordered segs time (vs.foldl (reached segs) b) ws →
      Ordered segs time b (vs ++ ws)
  | _, [], _, _, hw => hw
  | _, _ :: _, _, hv, hw => ⟨hv.1, ordered_append hv.2 hw⟩

theorem reached_cases (segs : Array (Segment F)) (b : F) (v : Visit F) :
    reached segs b v = b ∨
      ∃ m, segs[v.segment]? = some m ∧ v.lower m < v.upper m ∧ reached segs b v = v.upper m := by
  cases hm : segs[v.segment]? with
  | none => exact .inl (by simp only [reached, hm])
  | some m =>
    by_cases h : v.lower m < v.upper m
    · exact .inr ⟨m, rfl, h, by simp only [reached, hm, if_pos h]⟩
    · exact .inl (by simp only [reached, hm, if_neg h])

theorem upper_le_finish (v : Visit F) (m : Segment F) : v.upper m ≤ m.finish := min_le_right _ _

/-- A visit of a row leaves searches at the end of its segment or where they were. -/
theorem reached_le {segs : Array (Segment F)} {b : F} {v : Visit F} {m : Segment F}
    (hm : segs[v.segment]? = some m) : reached segs b v ≤ max b m.finish := by
  rcases reached_cases segs b v with h | ⟨n, hn, -, h⟩
  · rw [h]; exact le_max_left _ _
  · rw [hm] at hn
    cases hn
    rw [h]
    exact (v.upper_le_finish m).trans (le_max_right _ _)

/-! ## Lead-ins -/

theorem leadFrom_bounds (segs : Array (Segment F)) (start : F) : ∀ (last more : Nat),
    leadFrom segs start last more ≤ last ∧ last ≤ leadFrom segs start last more + more
  | last, 0 => by cases last <;> exact ⟨le_refl _, le_refl _⟩
  | 0, _ + 1 => ⟨le_refl _, Nat.zero_le _⟩
  | last + 1, more + 1 => by
    have ih := leadFrom_bounds segs start last more
    unfold leadFrom
    split
    · split
      · omega
      · omega
    · omega

/-- A lead-in visits segment after segment, and ends before the segment that it leads to. -/
theorem lead_ordered {segs : Array (Segment F)} (hq : Contiguous segs) (start time : F) {i : Nat}
    {m : Segment F} (hm : segs[i]? = some m) : ∀ (count first : Nat) (b : F), first + count = i →
      (∀ j n, first ≤ j → j < i → segs[j]? = some n → b ≤ max start n.start) →
      Ordered segs time b ((List.range' first count).map fun back => ⟨back, start, time, none⟩) ∧
        ((List.range' first count).map fun back => (⟨back, start, time, none⟩ : Visit F)).foldl
          (reached segs) b ≤ max b m.start
  | 0, _, _, _, _ => ⟨trivial, le_max_left _ _⟩
  | count + 1, first, b, hi, hb => by
    obtain ⟨n, hn⟩ := Contiguous.exists_of_le hm (by omega : first ≤ i)
    have hr : reached segs b ⟨first, start, time, none⟩ ≤ max b n.finish := reached_le hn
    obtain ⟨h1, h2⟩ := lead_ordered hq start time hm count (first + 1)
      (reached segs b ⟨first, start, time, none⟩) (by omega) (fun j o hj hji ho => by
        refine hr.trans (max_le (hb j o (by omega) hji ho) ?_)
        exact (hq.finish_le_start hn ho (by omega)).trans (le_max_right _ _))
    refine ⟨⟨fun o ho _ => ?_, h1⟩, h2.trans ?_⟩
    · exact ⟨hb first o (le_refl _) (by omega) ho, min_le_left _ _⟩
    · refine max_le (hr.trans (max_le (le_max_left _ _) ?_)) (le_max_right _ _)
      exact (hq.finish_le_start hn hm (by omega)).trans (le_max_right _ _)

/-- So does the lead-in that goes back over at most `skipped` segments, if there is one at all. -/
theorem lead_back_ordered {segs : Array (Segment F)} (hq : Contiguous segs) (start time : F) {i skipped : Nat}
    {m : Segment F} (hm : segs[i]? = some m) (hskip : skipped ≤ i) {b : F}
    (hb : ∀ j n, i ≤ j + skipped → j < i → segs[j]? = some n → b ≤ max start n.start)
    (p : Prop) [Decidable p] (hp : p → 0 < skipped) :
    let lead : List (Visit F) := if p then
      (List.range' (leadFrom segs start (i - 1) (skipped - 1))
        (i - leadFrom segs start (i - 1) (skipped - 1))).map fun back => ⟨back, start, time, none⟩
      else []
    Ordered segs time b lead ∧ lead.foldl (reached segs) b ≤ max b m.start := by
  dsimp only
  split
  · rename_i h
    have hpos := hp h
    obtain ⟨h1, h2⟩ := leadFrom_bounds segs start (i - 1) (skipped - 1)
    exact lead_ordered hq start time hm _ _ b (by omega) fun j n hj hji hn => hb j n (by omega) hji hn
  · exact ⟨trivial, le_max_left _ _⟩

/-! ## The plan of a flush -/

omit [Exact F] in
theorem drop_eq_cons {segs : Array (Segment F)} {m : Segment F} {rest : List (Segment F)} {i : Nat}
    (h : m :: rest = segs.toList.drop i) : segs[i]? = some m ∧ rest = segs.toList.drop (i + 1) := by
  constructor
  · rw [← Array.getElem?_toList, ← List.head?_drop, ← h, List.head?_cons]
  · rw [← List.tail_drop, ← h, List.tail_cons]

/-- The visits of a plan are in order. The searches so far end before the next segment, and before what
a lead-in from it can go back to: `skipped` segments, of which the first may have been searched until
`forced`. -/
theorem plan_ordered (scope : Scope F) {segs : Array (Segment F)} (hq : Contiguous segs) :
    ∀ (rest : List (Segment F)) (i : Nat) (forced : F) (skipped : Nat) (b : F),
      rest = segs.toList.drop i → skipped ≤ i →
      (∀ m, segs[i]? = some m → b ≤ max scope.flushed m.start) →
      (∀ j m, i ≤ j + skipped → j < i → segs[j]? = some m →
        b ≤ max (max scope.flushed forced) m.start) →
      Ordered segs scope.time b (plan scope segs rest i forced skipped)
  | [], _, _, _, _, _, _, _, _ => trivial
  | m :: rest, i, forced, skipped, b, hrest, hskip, hnext, hback => by
    obtain ⟨hm, hrest'⟩ := drop_eq_cons hrest
    have later : ∀ (v : Visit F) (b' : F), v.segment = i → b' ≤ max scope.flushed m.start →
        ∀ n, segs[i + 1]? = some n → reached segs b' v ≤ max scope.flushed n.start := by
      intro v b' hv hb' n hn
      have hfin : m.finish ≤ n.start := hq.finish_le_start hm hn (Nat.lt_succ_self i)
      refine (reached_le (hv ▸ hm)).trans (max_le (hb'.trans (max_le_max_left _ ?_)) ?_)
      · exact (hq.start_le_finish hm).trans hfin
      · exact hfin.trans (le_max_right _ _)
    unfold plan
    simp only [Scalar.zero_literal, Scalar.max_eq, Scalar.min_eq]
    split
    · -- the lead-in stays before the segment, and so does the segment before the next one
      obtain ⟨start, hstart⟩ : ∃ start, start = max (max (m.start - scope.before) scope.flushed) forced :=
        ⟨_, rfl⟩
      have hforced : max scope.flushed forced ≤ start := by
        rw [hstart]
        exact max_le_max_right _ (le_max_right _ _)
      obtain ⟨hord, hreach⟩ := lead_back_ordered hq start scope.time hm hskip
        (fun j n h1 h2 hn => (hback j n h1 h2 hn).trans (max_le_max_right _ hforced))
        (0 < skipped ∧ 0 < scope.before) And.left
      have hreach' := hreach.trans (max_le (hnext m hm) (le_max_right _ _))
      rw [← hstart]
      split
      · refine ordered_append hord ⟨fun n hn _ => ?_, trivial⟩
        rw [hm] at hn; cases hn
        exact ⟨hreach', min_le_left _ _⟩
      · refine ordered_append hord ⟨fun n hn _ => ?_, ?_⟩
        · rw [hm] at hn; cases hn
          exact ⟨hreach', min_le_left _ _⟩
        · exact plan_ordered scope hq rest (i + 1) _ 0 _ hrest' (Nat.zero_le _) (later _ _ rfl hreach')
            fun j n h1 h2 => by omega
    · -- a trailing search ends where a lead-in that comes back to it begins
      have hb := hnext m hm
      by_cases htrails : m.start < forced
      · simp only [htrails, if_true]
        have hvisit : Ordered segs scope.time b [⟨i, scope.flushed, min forced scope.time, none⟩] := by
          refine ⟨fun n hn _ => ?_, trivial⟩
          rw [hm] at hn; cases hn
          exact ⟨hb, (min_le_left _ _).trans (min_le_right _ _)⟩
        split
        · exact hvisit
        · refine ordered_append hvisit ?_
          refine plan_ordered scope hq rest (i + 1) forced 1 _ hrest' (by omega) (later _ _ rfl hb)
            fun j n h1 h2 hn => ?_
          obtain rfl : j = i := by omega
          rw [hm] at hn; cases hn
          rcases reached_cases segs b ⟨j, scope.flushed, min forced scope.time, none⟩ with h | ⟨o, ho, -, h⟩
          · exact (le_of_eq h).trans (hb.trans (max_le_max_right _ (le_max_left _ _)))
          · refine (le_of_eq h).trans (le_max_of_le_left (le_max_of_le_right ?_))
            exact (min_le_left _ _).trans (min_le_left _ _)
      · simp only [htrails, if_false, List.nil_append]
        split
        · trivial
        · refine plan_ordered scope hq rest (i + 1) forced (skipped + 1) b hrest' (by omega) (fun n hn => ?_)
            fun j n h1 h2 hn => ?_
          · exact hb.trans (max_le_max_left _ (hq.start_le_start hm hn (Nat.le_succ i)))
          · rcases Nat.lt_succ_iff_lt_or_eq.1 h2 with h | rfl
            · exact hback j n (by omega) h hn
            · rw [hm] at hn; cases hn
              exact hb.trans (max_le_max_right _ (le_max_left _ _))

end Visit

end PrinterMotion
