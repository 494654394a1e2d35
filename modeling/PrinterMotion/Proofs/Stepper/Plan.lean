/-
What the plan of a flush covers. It searches every moment that lies in a segment which moves the stepper, or in
the windows before and after one: behind motion it searches until the window is over, and in front of motion
it goes back over the segments that it had skipped. It notes until when the stepper has been moved.
-/
import PrinterMotion.Proofs.Stepper.Visits

namespace PrinterMotion

variable {F : Type} [Exact F]

/-! ## Ranges -/

namespace Visit

/-- The time that a visit searches, if there is any. -/
def range? (segs : Array (Segment F)) (v : Visit F) : Option (F × F) :=
  segs[v.segment]?.bind fun m => if v.lower m < v.upper m then some (v.lower m, v.upper m) else none

/-- A visit searches the time `t`. -/
def Covers (segs : Array (Segment F)) (v : Visit F) (t : F) : Prop :=
  ∃ r ∈ v.range? segs, r.1 < t ∧ t ≤ r.2

variable {segs : Array (Segment F)} {v : Visit F} {m : Segment F} {t b time : F}

theorem range?_eq_some {r : F × F} (h : v.range? segs = some r) :
    ∃ m, segs[v.segment]? = some m ∧ v.lower m < v.upper m ∧ r = (v.lower m, v.upper m) := by
  obtain ⟨m, hm, hr⟩ := Option.bind_eq_some_iff.1 h
  split at hr
  · rename_i hlt
    exact ⟨m, hm, hlt, (Option.some.inj hr).symm⟩
  · cases hr

/-- A time in the segment between the limits of the visit is searched. -/
theorem covers_of_mem (hm : segs[v.segment]? = some m) (hlow : m.start < t) (hupp : t ≤ m.finish)
    (hstart : v.start < t) (hstop : t ≤ v.stop) : v.Covers segs t := by
  have hlower : v.lower m < t := max_lt hstart hlow
  have hupper : t ≤ v.upper m := le_min hstop hupp
  refine ⟨(v.lower m, v.upper m), ?_, hlower, hupper⟩
  rw [Option.mem_def, range?, hm, Option.bind_some, if_pos (hlower.trans_le hupper)]

/-- The ranges of visits in order follow each other, from `b` to `time`. -/
theorem Ordered.ranges : ∀ {b : F} {vs : List (Visit F)}, Ordered segs time b vs →
    (vs.filterMap (range? segs)).Pairwise (fun r r' => r.2 ≤ r'.1) ∧
      ∀ r ∈ vs.filterMap (range? segs), b ≤ r.1 ∧ r.1 < r.2 ∧ r.2 ≤ time
  | _, [], _ => ⟨.nil, nofun⟩
  | b, v :: vs, ⟨hv, hrest⟩ => by
    obtain ⟨hpair, hall⟩ := hrest.ranges
    cases hrange : v.range? segs with
    | none =>
      have hsame : reached segs b v = b := by
        rcases reached_cases segs b v with h | ⟨m, hm, hlt, -⟩
        · exact h
        · rw [range?, hm, Option.bind_some, if_pos hlt] at hrange
          cases hrange
      rw [hsame] at hall
      rw [List.filterMap_cons_none hrange]
      exact ⟨hpair, hall⟩
    | some r =>
      obtain ⟨m, hm, hlt, rfl⟩ := range?_eq_some hrange
      obtain ⟨hlow, hupp⟩ := hv m hm hlt
      have hreach : reached segs b v = v.upper m := by simp only [reached, hm, if_pos hlt]
      rw [hreach] at hall
      rw [List.filterMap_cons_some hrange]
      refine ⟨List.pairwise_cons.2 ⟨fun r hr => (hall r hr).1, hpair⟩, fun r hr => ?_⟩
      rcases List.mem_cons.1 hr with rfl | hr
      · exact ⟨hlow, hlt, hupp⟩
      · exact ⟨hlow.trans (hlt.le.trans (hall r hr).1), (hall r hr).2⟩

/-! ## The plan of a flush, case by case -/

variable {scope : Scope F} {segs : Array (Segment F)} {m : Segment F} {rest : List (Segment F)} {i skipped : Nat}
  {forced : F}

omit [Exact F] in
/-- A plan that is at its end has seen all segments. -/
theorem lt_of_drop_eq_nil (h : segs.toList.drop i = []) {l : Nat} {n : Segment F} (hn : segs[l]? = some n) : l < i := by
  have hend : segs.size ≤ i := by
    rw [← Array.length_toList]
    exact List.drop_eq_nil_iff.1 h
  exact (Array.getElem?_eq_some_iff.1 hn).1.trans_le hend

/-- A segment that moves the stepper, and is not in front of one that does not, comes behind it. -/
theorem lt_of_meets (hm : segs[i]? = some m) (hstill : scope.axes.meets m.direction = false) {l : Nat} {n : Segment F}
    (hn : segs[l]? = some n) (hmoves : scope.axes.meets n.direction = true) (hil : i ≤ l) : i < l := by
  refine lt_of_le_of_ne hil ?_
  rintro rfl
  rw [hm] at hn
  cases hn
  rw [hstill] at hmoves
  cases hmoves

/-- The searches that lead to a segment, over those that were skipped in front of it. -/
def leadIn (scope : Scope F) (segs : Array (Segment F)) (m : Segment F) (i : Nat) (forced : F) (skipped : Nat) :
    List (Visit F) :=
  if 0 < skipped ∧ 0 < scope.before then
    let start := max (max (m.start - scope.before) scope.flushed) forced
    let first := leadFrom segs start (i - 1) (skipped - 1)
    (List.range' first (i - first)).map fun back => ⟨back, start, scope.time, none⟩
  else []

/-- The search of a segment behind motion. -/
def trail (scope : Scope F) (m : Segment F) (i : Nat) (forced : F) : List (Visit F) :=
  if m.start < forced then [⟨i, scope.flushed, min forced scope.time, none⟩] else []

theorem plan_moving (h : scope.axes.meets m.direction = true) : plan scope segs (m :: rest) i forced skipped =
    leadIn scope segs m i forced skipped ++ ⟨i, scope.flushed, scope.time, some (min scope.time m.finish)⟩ ::
      if scope.time ≤ m.finish then [] else plan scope segs rest (i + 1) (m.finish + scope.after) 0 := by
  rw [plan, if_pos h]
  simp only [Scalar.zero_literal, Scalar.max_eq, leadIn]
  by_cases hend : scope.time ≤ m.finish
  · rw [if_pos hend, if_pos hend, min_eq_left hend]
  · rw [if_neg hend, if_neg hend, min_eq_right (not_le.1 hend).le]

theorem plan_still (h : scope.axes.meets m.direction = false) : plan scope segs (m :: rest) i forced skipped =
    trail scope m i forced ++ if scope.time + scope.before ≤ m.finish then []
      else plan scope segs rest (i + 1) forced (if m.start < forced then 1 else skipped + 1) := by
  rw [plan, if_neg (by rw [h]; exact Bool.false_ne_true)]
  simp only [Scalar.min_eq, trail]
  by_cases hend : scope.time + scope.before ≤ m.finish
  · rw [if_pos hend, if_pos hend, List.append_nil]
  · rw [if_neg hend, if_neg hend]

theorem mem_leadIn {v : Visit F} (hskip : skipped ≤ i) (hv : v ∈ leadIn scope segs m i forced skipped) :
    v.activeUntil = none ∧ v.segment < i ∧ i ≤ v.segment + skipped := by
  rw [leadIn] at hv
  split at hv
  · rename_i h
    obtain ⟨back, hback, rfl⟩ := List.mem_map.1 hv
    rw [List.mem_range'_1] at hback
    have hbounds := leadFrom_bounds segs (max (max (m.start - scope.before) scope.flushed) forced) (i - 1) (skipped - 1)
    refine ⟨rfl, ?_, ?_⟩
    · have := hback.2
      show back < i
      omega
    · have := hback.1
      show i ≤ back + skipped
      omega
  · cases hv

theorem mem_trail {v : Visit F} (hv : v ∈ trail scope m i forced) : v.activeUntil = none ∧ v.segment = i := by
  rw [trail] at hv
  split at hv
  · rw [List.mem_singleton.1 hv]
    exact ⟨rfl, rfl⟩
  · cases hv

/-- A lead-in goes back as far as segments begin behind its start. -/
theorem leadFrom_le {start : F} {j : Nat} : ∀ {last more : Nat}, j ≤ last → last ≤ j + more →
    (∀ l, j < l → l ≤ last → ∃ n, segs[l]? = some n ∧ start < n.start) → leadFrom segs start last more ≤ j
  | last, 0, _, hmore, _ => by
    obtain rfl : last = j := by omega
    cases last <;> exact le_refl _
  | 0, more + 1, _, _, _ => Nat.zero_le _
  | last + 1, more + 1, hle, hmore, hbegin => by
    rcases hle.eq_or_lt with rfl | hlt
    · exact (leadFrom_bounds segs start (last + 1) (more + 1)).1
    · obtain ⟨n, hn, hstart⟩ := hbegin (last + 1) hlt (le_refl _)
      rw [leadFrom, hn]
      simp only [if_pos hstart]
      exact leadFrom_le (by omega) (by omega) fun l hl hl' => hbegin l hl (by omega)

/-! ## What a plan covers -/

/-- The moment `t` of a flush lies in segment `j`. -/
structure Moment (scope : Scope F) (segs : Array (Segment F)) (t : F) (j : Nat) (s : Segment F) : Prop where
  segment : segs[j]? = some s
  start : s.start < t
  finish : t ≤ s.finish
  flushed : scope.flushed < t
  time : t ≤ scope.time

/-- From segment `i` on a plan is to search the moment `t`, which lies in segment `j`. -/
inductive Due (scope : Scope F) (segs : Array (Segment F)) (t : F) (i j : Nat) (forced : F) (skipped : Nat) : Prop where
  /-- Motion is over, and its window reaches to `t`. -/
  | trailing (hij : i ≤ j) (ht : t ≤ forced)
  /-- The moment lies in the windows of a segment that is still to be visited. -/
  | ahead (hij : i ≤ j) {l : Nat} {n : Segment F} (hil : i ≤ l) (hn : segs[l]? = some n)
    (hmoves : scope.axes.meets n.direction = true) (hwindow : n.start - scope.before < t)
    (hafter : t ≤ n.finish + scope.after)
  /-- The moment has been skipped, and lies in the window in front of such a segment. -/
  | skipped (hji : j < i) (hback : i ≤ j + skipped) (hforced : forced < t) {l : Nat} {n : Segment F} (hil : i ≤ l)
    (hn : segs[l]? = some n) (hmoves : scope.axes.meets n.direction = true) (hwindow : n.start - scope.before < t)

variable {t : F} {j : Nat} {s : Segment F}

/-- A moment in a skipped segment is searched on the way to a segment whose window it lies in. -/
theorem Moment.leadIn_covers (h : Moment scope segs t j s) (hq : Contiguous segs) (hm : segs[i]? = some m) (hji : j < i)
    (hback : i ≤ j + skipped) (hforced : forced < t) (hwindow : m.start - scope.before < t) :
    ∃ v ∈ leadIn scope segs m i forced skipped, v.Covers segs t := by
  have hbefore : 0 < scope.before := by
    have := h.finish.trans (hq.finish_le_start h.segment hm hji)
    linarith
  obtain ⟨start, hstart⟩ : ∃ start, start = max (max (m.start - scope.before) scope.flushed) forced := ⟨_, rfl⟩
  have hlt : start < t := by
    rw [hstart]
    exact max_lt (max_lt hwindow h.flushed) hforced
  have hfirst : leadFrom segs start (i - 1) (skipped - 1) ≤ j := by
    refine leadFrom_le (by omega) (by omega) fun l hl hl' => ?_
    obtain ⟨n, hn⟩ := Contiguous.exists_of_le hm (by omega : l ≤ i)
    exact ⟨n, hn, hlt.trans_le (h.finish.trans (hq.finish_le_start h.segment hn hl))⟩
  refine ⟨⟨j, start, scope.time, none⟩, ?_, covers_of_mem h.segment h.start h.finish hlt h.time⟩
  rw [leadIn, if_pos ⟨by omega, hbefore⟩, ← hstart]
  exact List.mem_map.2 ⟨j, List.mem_range'_1.2 ⟨hfirst, by omega⟩, rfl⟩

/-- A moment in reach of the window behind motion is searched. -/
theorem Moment.trail_covers (h : Moment scope segs t j s) (ht : t ≤ forced) :
    ∃ v ∈ trail scope s j forced, v.Covers segs t := by
  refine ⟨⟨j, scope.flushed, min forced scope.time, none⟩, ?_,
    covers_of_mem h.segment h.start h.finish h.flushed (le_min ht h.time)⟩
  rw [trail, if_pos (h.start.trans_le ht)]
  exact List.mem_singleton_self _

/-- At a segment that moves the stepper the plan searches what is due, or goes on to where it is. -/
theorem Due.moving (hdue : Due scope segs t i j forced skipped) (h : Moment scope segs t j s) (hq : Contiguous segs)
    (hm : segs[i]? = some m) (hforced : forced ≤ m.finish + scope.after) :
    (∃ v ∈ leadIn scope segs m i forced skipped ++
        [⟨i, scope.flushed, scope.time, some (min scope.time m.finish)⟩], v.Covers segs t) ∨
      m.finish < scope.time ∧ Due scope segs t (i + 1) j (m.finish + scope.after) 0 := by
  rcases lt_trichotomy j i with hji | rfl | hlt
  · -- A skipped moment lies in the window of this segment, as it does in that of a later one.
    cases hdue with
    | trailing hij _ => omega
    | ahead hij _ _ _ _ _ => omega
    | skipped _ hback hforced hil hn _ hwindow =>
      have hstart := hq.start_le_start hm hn hil
      obtain ⟨v, hv, hcovers⟩ := h.leadIn_covers hq hm hji hback hforced (by linarith : m.start - scope.before < t)
      exact .inl ⟨v, List.mem_append_left _ hv, hcovers⟩
  · exact .inl ⟨_, List.mem_append_right _ (List.mem_singleton_self _),
      covers_of_mem h.segment h.start h.finish h.flushed h.time⟩
  · have hbehind : m.finish < t := (hq.finish_le_start hm h.segment hlt).trans_lt h.start
    refine .inr ⟨hbehind.trans_le h.time, ?_⟩
    cases hdue with
    | trailing _ ht => exact .trailing hlt (ht.trans hforced)
    | ahead _ hil hn hmoves hwindow hafter =>
      rcases hil.eq_or_lt with rfl | hil
      · rw [hm] at hn
        cases hn
        exact .trailing hlt hafter
      · exact .ahead hlt hil hn hmoves hwindow hafter
    | skipped hji _ _ _ _ _ _ => omega

/-- So it does at a segment that does not. -/
theorem Due.still (hdue : Due scope segs t i j forced skipped) (h : Moment scope segs t j s) (hq : Contiguous segs)
    (hbefore : 0 ≤ scope.before) (hm : segs[i]? = some m) (hmoves : scope.axes.meets m.direction = false) :
    (∃ v ∈ trail scope m i forced, v.Covers segs t) ∨ m.finish < scope.time + scope.before ∧
      Due scope segs t (i + 1) j forced (if m.start < forced then 1 else skipped + 1) := by
  -- The segments whose windows count are behind this one.
  have hlater : ∀ {l : Nat} {n : Segment F}, i ≤ l → segs[l]? = some n → scope.axes.meets n.direction = true →
      n.start - scope.before < t → i < l ∧ m.finish < scope.time + scope.before := by
    intro l n hil hn hmoves' hwindow
    have hlt := lt_of_meets hm hmoves hn hmoves' hil
    refine ⟨hlt, ?_⟩
    calc m.finish ≤ n.start := hq.finish_le_start hm hn hlt
      _ < t + scope.before := by linarith
      _ ≤ scope.time + scope.before := by linarith [h.time]
  have hbehind : i < j → m.finish < scope.time + scope.before := by
    intro hlt
    have := hq.finish_le_start hm h.segment hlt
    linarith [h.start, h.time]
  have hown : i = j → m = s := by
    rintro rfl
    exact Option.some.inj (hm.symm.trans h.segment)
  cases hdue with
  | trailing hij ht =>
    rcases hij.eq_or_lt with rfl | hlt
    · rw [hown rfl]
      exact .inl (h.trail_covers ht)
    · exact .inr ⟨hbehind hlt, .trailing hlt ht⟩
  | ahead hij hil hn hmoves' hwindow hafter =>
    obtain ⟨hil', hgoes⟩ := hlater hil hn hmoves' hwindow
    rcases hij.eq_or_lt with rfl | hlt
    · rcases le_or_gt t forced with ht | ht
      · rw [hown rfl]
        exact .inl (h.trail_covers ht)
      · refine .inr ⟨hgoes, .skipped (Nat.lt_succ_self i) ?_ ht hil' hn hmoves' hwindow⟩
        split <;> omega
    · exact .inr ⟨hgoes, .ahead hlt hil' hn hmoves' hwindow hafter⟩
  | skipped hji hback hforced hil hn hmoves' hwindow =>
    obtain ⟨hil', hgoes⟩ := hlater hil hn hmoves' hwindow
    have htrails : ¬ m.start < forced := by
      rw [not_lt]
      exact hforced.le.trans (h.finish.trans (hq.finish_le_start h.segment hm hji))
    refine .inr ⟨hgoes, .skipped (by omega) ?_ hforced hil' hn hmoves' hwindow⟩
    rw [if_neg htrails]
    omega

/-- A plan searches what is due. -/
theorem plan_covers (hq : Contiguous segs) (hbefore : 0 ≤ scope.before) (h : Moment scope segs t j s) :
    ∀ (rest : List (Segment F)) (i : Nat) (forced : F) (skipped : Nat), rest = segs.toList.drop i →
      (∀ l n, i ≤ l → segs[l]? = some n → forced ≤ n.finish + scope.after) →
        Due scope segs t i j forced skipped → ∃ v ∈ plan scope segs rest i forced skipped, v.Covers segs t
  | [], i, forced, skipped, hrest, _, hdue => by
    -- Behind the last segment nothing is due.
    cases hdue with
    | trailing hij _ => exact absurd (lt_of_drop_eq_nil hrest.symm h.segment) (not_lt.2 hij)
    | ahead hij _ _ _ _ _ => exact absurd (lt_of_drop_eq_nil hrest.symm h.segment) (not_lt.2 hij)
    | skipped _ _ _ hil hn _ _ => exact absurd (lt_of_drop_eq_nil hrest.symm hn) (not_lt.2 hil)
  | m :: rest, i, forced, skipped, hrest, hbound, hdue => by
    obtain ⟨hm, hrest'⟩ := drop_eq_cons hrest
    cases hmoves : scope.axes.meets m.direction with
    | true =>
      rw [plan_moving hmoves]
      rcases hdue.moving h hq hm (hbound i m (le_refl _) hm) with ⟨v, hv, hcovers⟩ | ⟨hgoes, hnext⟩
      · refine ⟨v, ?_, hcovers⟩
        rcases List.mem_append.1 hv with hv | hv
        · exact List.mem_append_left _ hv
        · exact List.mem_append_right _ (List.mem_cons.2 (.inl (List.mem_singleton.1 hv)))
      · rw [if_neg (not_le.2 hgoes)]
        obtain ⟨v, hv, hcovers⟩ := plan_covers hq hbefore h rest (i + 1) _ 0 hrest' (fun l n hl hn =>
          add_le_add_left ((hq.finish_le_start hm hn hl).trans (hq.start_le_finish hn)) _) hnext
        exact ⟨v, List.mem_append_right _ (List.mem_cons_of_mem _ hv), hcovers⟩
    | false =>
      rw [plan_still hmoves]
      rcases hdue.still h hq hbefore hm hmoves with ⟨v, hv, hcovers⟩ | ⟨hgoes, hnext⟩
      · exact ⟨v, List.mem_append_left _ hv, hcovers⟩
      · rw [if_neg (not_le.2 hgoes)]
        obtain ⟨v, hv, hcovers⟩ := plan_covers hq hbefore h rest (i + 1) forced _ hrest'
          (fun l n hl hn => hbound l n (by omega) hn) hnext
        exact ⟨v, List.mem_append_right _ hv, hcovers⟩

/-! ## Until when a plan moves the stepper -/

/-- Until when the stepper is moved behind visits, if it was moved until `u` in front of them. -/
def lastUntil (vs : List (Visit F)) (u : F) : F := vs.foldl (fun u v => v.activeUntil.getD u) u

omit [Exact F] in
theorem lastUntil_append (vs ws : List (Visit F)) (u : F) : lastUntil (vs ++ ws) u = lastUntil ws (lastUntil vs u) :=
  List.foldl_append

omit [Exact F] in
theorem lastUntil_of_none {vs : List (Visit F)} (h : ∀ v ∈ vs, v.activeUntil = none) (u : F) : lastUntil vs u = u := by
  induction vs with
  | nil => rfl
  | cons v vs ih =>
    rw [lastUntil, List.foldl_cons, h v List.mem_cons_self]
    exact ih fun w hw => h w (List.mem_cons_of_mem _ hw)

/-- A plan notes motion in order, and all motion that ends in time and that it does not stop in front of. -/
theorem plan_until (scope : Scope F) (hq : Contiguous segs) : ∀ (rest : List (Segment F)) (i : Nat) (forced : F)
    (skipped : Nat) (u : F), rest = segs.toList.drop i → skipped ≤ i → u ≤ scope.time →
      (∀ l n, i ≤ l → segs[l]? = some n → u ≤ n.finish) →
      u ≤ lastUntil (plan scope segs rest i forced skipped) u ∧
      lastUntil (plan scope segs rest i forced skipped) u ≤ scope.time ∧
      ∀ l n, i ≤ l → segs[l]? = some n → scope.axes.meets n.direction = true → n.finish ≤ scope.time →
        (l = 0 ∨ n.start < scope.time + scope.before) →
          n.finish ≤ lastUntil (plan scope segs rest i forced skipped) u
  | [], i, _, _, u, hrest, _, hu, _ => by
    exact ⟨le_refl _, hu, fun l n hl hn => absurd (lt_of_drop_eq_nil hrest.symm hn) (not_lt.2 hl)⟩
  | m :: rest, i, forced, skipped, u, hrest, hskip, hu, hbound => by
    obtain ⟨hm, hrest'⟩ := drop_eq_cons hrest
    have hfinish : ∀ l n, i + 1 ≤ l → segs[l]? = some n → m.finish ≤ n.finish :=
      fun l n hl hn => (hq.finish_le_start hm hn hl).trans (hq.start_le_finish hn)
    cases hmoves : scope.axes.meets m.direction with
    | true =>
      have hlead : lastUntil (leadIn scope segs m i forced skipped) u = u :=
        lastUntil_of_none (fun v hv => (mem_leadIn hskip hv).1) u
      have huntil : u ≤ min scope.time m.finish := le_min hu (hbound i m (le_refl _) hm)
      rw [plan_moving hmoves, lastUntil_append, hlead]
      by_cases hend : scope.time ≤ m.finish
      · rw [if_pos hend]
        have hlast : lastUntil [⟨i, scope.flushed, scope.time, some (min scope.time m.finish)⟩] u = scope.time :=
          min_eq_left hend
        rw [hlast]
        exact ⟨hu, le_refl _, fun _ _ _ _ _ hn _ => hn⟩
      · rw [if_neg hend]
        rw [not_le] at hend
        obtain ⟨hle, htime, hall⟩ := plan_until scope hq rest (i + 1) (m.finish + scope.after) 0 m.finish hrest'
          (Nat.zero_le _) hend.le hfinish
        have hnext : ∀ vs, lastUntil (⟨i, scope.flushed, scope.time, some (min scope.time m.finish)⟩ :: vs) u =
            lastUntil vs m.finish := by
          intro vs
          rw [lastUntil, List.foldl_cons, Option.getD_some, min_eq_right hend.le]
          rfl
        rw [hnext]
        refine ⟨(hbound i m (le_refl _) hm).trans hle, htime, fun l n hl hn hmoves' hfin hnear => ?_⟩
        rcases hl.eq_or_lt with rfl | hl
        · rw [hm] at hn
          cases hn
          exact hle
        · exact hall l n hl hn hmoves' hfin hnear
    | false =>
      have htrail : lastUntil (trail scope m i forced) u = u := lastUntil_of_none (fun v hv => (mem_trail hv).1) u
      rw [plan_still hmoves, lastUntil_append, htrail]
      by_cases hend : scope.time + scope.before ≤ m.finish
      · rw [if_pos hend]
        refine ⟨le_refl _, hu, fun l n hl hn hmoves' _ hnear => ?_⟩
        -- What follows begins too late.
        have hl' := lt_of_meets hm hmoves hn hmoves' hl
        have hstart := hq.finish_le_start hm hn hl'
        rcases hnear with rfl | hnear
        · omega
        · linarith
      · rw [if_neg hend]
        obtain ⟨hle, htime, hall⟩ := plan_until scope hq rest (i + 1) forced
          (if m.start < forced then 1 else skipped + 1) u hrest' (by split <;> omega) hu
          fun l n hl hn => hbound l n (by omega) hn
        exact ⟨hle, htime, fun l n hl hn hmoves' => hall l n (lt_of_meets hm hmoves hn hmoves' hl) hn hmoves'⟩

/-- The segments that a plan visits and that move the stepper begin before the end of its window, but for the
first of the queue. -/
theorem plan_near (hq : Contiguous segs) (hbefore : 0 ≤ scope.before) : ∀ (rest : List (Segment F)) (i : Nat)
    (forced : F) (skipped : Nat), rest = segs.toList.drop i → skipped ≤ i →
      (∀ l n, l < i → i ≤ l + skipped → segs[l]? = some n → scope.axes.meets n.direction = false) →
      (i = 0 ∨ ∀ n, segs[i]? = some n → n.start < scope.time + scope.before) →
        ∀ v ∈ plan scope segs rest i forced skipped, ∀ n, segs[v.segment]? = some n →
          scope.axes.meets n.direction = true →
            i ≤ v.segment ∧ (v.segment = 0 ∨ n.start < scope.time + scope.before)
  | [], _, _, _, _, _, _, _, v, hv => by cases hv
  | m :: rest, i, forced, skipped, hrest, hskip, hstill, hnear, v, hv => by
    obtain ⟨hm, hrest'⟩ := drop_eq_cons hrest
    intro n hn hmoves'
    have hown : v.segment = i → i ≤ v.segment ∧ (v.segment = 0 ∨ n.start < scope.time + scope.before) := by
      rintro rfl
      exact ⟨le_refl _, hnear.imp_right fun h => h n hn⟩
    have hnext : m.finish < scope.time + scope.before → i + 1 = 0 ∨ ∀ o, segs[i + 1]? = some o →
        o.start < scope.time + scope.before := by
      refine fun hgoes => .inr fun o ho => ?_
      rwa [hq.meets i m o hm ho]
    have honwards : i + 1 ≤ v.segment ∧ (v.segment = 0 ∨ n.start < scope.time + scope.before) →
        i ≤ v.segment ∧ (v.segment = 0 ∨ n.start < scope.time + scope.before) :=
      fun ⟨hle, h⟩ => ⟨by omega, h⟩
    cases hmoves : scope.axes.meets m.direction with
    | true =>
      rw [plan_moving hmoves] at hv
      rcases List.mem_append.1 hv with hv | hv
      · obtain ⟨-, hlt, hback⟩ := mem_leadIn hskip hv
        rw [hstill _ n hlt hback hn] at hmoves'
        cases hmoves'
      rcases List.mem_cons.1 hv with rfl | hv
      · exact hown rfl
      split at hv
      · cases hv
      · rename_i hend
        rw [not_le] at hend
        exact honwards (plan_near hq hbefore rest (i + 1) _ 0 hrest' (Nat.zero_le _) (fun l o h1 h2 => by omega)
          (hnext (hend.trans_le (le_add_of_nonneg_right hbefore))) v hv n hn hmoves')
    | false =>
      rw [plan_still hmoves] at hv
      rcases List.mem_append.1 hv with hv | hv
      · exact hown (mem_trail hv).2
      split at hv
      · cases hv
      · rename_i hend
        refine honwards (plan_near hq hbefore rest (i + 1) forced _ hrest' ?_ (fun l o h1 h2 ho => ?_)
          (hnext (not_le.1 hend)) v hv n hn hmoves')
        · split <;> omega
        · rcases Nat.lt_succ_iff_lt_or_eq.1 h1 with hlt | rfl
          · refine hstill l o hlt ?_ ho
            split at h2 <;> omega
          · rw [hm] at ho
            cases ho
            exact hmoves

end Visit

end PrinterMotion
