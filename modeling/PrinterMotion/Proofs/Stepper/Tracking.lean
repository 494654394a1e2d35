/-
The commanded position follows the model. A search keeps the position between one boundary behind the
commanded position and one ahead of it, up to a margin, through secants, brackets and turns; so a range
that begins near the commanded position ends near it, and so does every flush.
-/
import PrinterMotion.Proofs.Stepper.Order

namespace PrinterMotion

variable {F : Type} [Exact F]

namespace Search

/-! ## Tolerances -/

theorem tolerances : (0 : F) < positionTolerance ∧ (positionTolerance : F) < turnMargin := by
  norm_num [positionTolerance, turnMargin]

theorem positionTolerance_eq : (positionTolerance : F) = timeTolerance := rfl

theorem turnMargin_eq : (turnMargin : F) = 10 * timeTolerance := by
  norm_num [turnMargin, timeTolerance]

/-! ## Positions during a search -/

/-- Wherever an evaluation answers, it gives the position. It may fail anywhere. -/
def Evaluates (P : F → F) (eval : F → Except (StepError F) F) : Prop := ∀ t p, eval t = .ok p → p = P t

/-- A position between the next boundary and the one two step lengths behind it, up to the margin that
tells a turn. -/
def Near (d x : F) : Prop := -(d + d + turnMargin) ≤ x ∧ x ≤ turnMargin

/-- The stepper is near the boundary at the last step and where the search has come to, and beyond it at
the upper end of a bracket. -/
structure Tracks (P : F → F) (d : F) (s : Search F) : Prop where
  last : Near d (s.beyond (P s.last))
  low : Near d (s.beyond (P s.low))
  high : s.bracketed = true → 0 < s.beyond (P s.high)

theorem begin_tracks {P : F → F} {commanded d start : F} (finish : F) (forward : Bool)
    (h : |P start - commanded| ≤ d + turnMargin) :
    Tracks P d (Search.begin commanded d start finish forward) := by
  obtain ⟨h1, h2⟩ := abs_le.1 h
  have hnear : Near d ((Search.begin commanded d start finish forward).beyond (P start)) := by
    cases forward <;> simp only [Near, beyond, Search.begin, Stepper.signed, if_true] <;>
      constructor <;> norm_num <;> linarith
  exact ⟨hnear, hnear, fun h => absurd h Bool.false_ne_true⟩

/-- A model gives its positions, and fails out of its reach. -/
theorem evaluates_position (k : Kinematics F) (c : Cursor F) (base : F) :
    Evaluates (k.position c) (k.evaluate c base) := fun _ _ h => Kinematics.eq_of_evaluate h

/-- A turn looks at positions from the other side. -/
theorem Turns.beyond_eq {d : F} {s s' : Search F} (h : Turns d s s') (x : F) :
    s'.beyond x = -s.beyond x - 2 * d := by
  unfold beyond
  rw [h.forward, h.target]
  cases s.forward <;> simp [Stepper.signed] <;> ring

variable {P : F → F} {eval : F → Except (StepError F) F} {d start finish : F} {s s' : Search F}

theorem Near.turned {x : F} (h : Near d x) : Near d (-x - 2 * d) := by
  obtain ⟨h1, h2⟩ := h
  constructor <;> linarith

/-- With a bracket, the boundary is passed at its upper end. -/
def Passed (P : F → F) (s : Search F) : Prop := s.bracketed = true → 0 < s.beyond (P s.high)

theorem Turns.beyond_pos {x : F} (h : Turns d s s') (hx : x = s.position) : 0 < s'.beyond x := by
  have hm := tolerances (F := F)
  have := h.position
  rw [h.beyond_eq, hx]
  linarith [hm.1, hm.2]

/-- A round that does not settle the crossing leaves the boundary passed at the upper end of the bracket. -/
theorem Probes.passed (heval : Evaluates P eval) (hr : Ready start finish s) (hs : Passed P s)
    (h : Probes eval d finish s false s') : Passed P s' := by
  obtain ⟨t, q, p, hp, he, hj⟩ := h
  obtain rfl := heval t p he
  have hq := proposes_of_eq hr hp
  rcases judge_cases (q.note t (P t)) d with ⟨hs', -⟩ | ⟨settled, hs', -⟩ <;> rw [hs'] at hj <;> cases hj
  rcases narrow_cases (q.note t (P t)) d with hn | hn | hn <;> intro hb
  · rw [beyond_congr hn.forward hn.target, hn.high]
    exact hn.position
  · rw [hn.high]
    exact hn.beyond_pos rfl
  · rw [hn.bracketed] at hb
    have hb' : s.bracketed = true := hq.bracketed.symm.trans hb
    have hhigh : (q.note t (P t)).high = s.high := (hq.bracket hb').1
    rw [beyond_congr (hn.forward.trans hq.forward) (hn.target.trans hq.target), hn.high, hhigh]
    exact hs hb'

/-- A round that does not settle the crossing keeps the positions. -/
theorem Probes.tracks (heval : Evaluates P eval) (hr : Ready start finish s) (ht : Tracks P d s)
    (h : Probes eval d finish s false s') : Tracks P d s' := by
  have hpassed := h.passed heval hr ht.high
  obtain ⟨t, q, p, hp, he, hj⟩ := h
  obtain rfl := heval t p he
  have hq := proposes_of_eq hr hp
  have hbeyond : ∀ x, (q.note t (P t)).beyond x = s.beyond x := beyond_congr hq.forward hq.target
  have hlast : (q.note t (P t)).last = s.last := hq.last
  have hlow : (q.note t (P t)).low = s.low := hq.low
  have hm := tolerances (F := F)
  rcases judge_cases (q.note t (P t)) d with ⟨hs, -⟩ | ⟨settled, hs, -⟩ <;> rw [hs] at hj <;> cases hj
  rcases narrow_cases (q.note t (P t)) d with hn | hn | hn
  · have hsame : ∀ x, ((q.note t (P t)).narrow d).beyond x = s.beyond x := fun x =>
      (beyond_congr hn.forward hn.target x).trans (hbeyond x)
    refine ⟨?_, ?_, hpassed⟩
    · rw [hsame, hn.last, hlast]; exact ht.last
    · rw [hsame, hn.low, hlow]; exact ht.low
  · have hturn : ∀ x, ((q.note t (P t)).narrow d).beyond x = -s.beyond x - 2 * d := fun x => by
      rw [hn.beyond_eq, hbeyond]
    refine ⟨?_, ?_, hpassed⟩
    · rw [hturn, hn.last, hlast]; exact ht.last.turned
    · rw [hturn, hn.low, hlast]; exact ht.last.turned
  · have hsame : ∀ x, ((q.note t (P t)).narrow d).beyond x = s.beyond x := fun x =>
      (beyond_congr hn.forward hn.target x).trans (hbeyond x)
    refine ⟨?_, ?_, hpassed⟩
    · rw [hsame, hn.last, hlast]; exact ht.last
    · rw [hsame, hn.low]
      have h1 := hn.ge_margin
      have h2 := hn.le_zero
      rw [hbeyond] at h1 h2
      exact ⟨h1, h2.trans (hm.1.trans hm.2).le⟩

/-- Where a crossing is settled, the position is within a step length of the boundary, up to the margin. -/
theorem Probes.found_near (heval : Evaluates P eval) (hd : 0 ≤ d)
    (hP : ∀ x y, start ≤ x → x ≤ y → y ≤ finish → y - x ≤ timeTolerance → |P y - P x| ≤ d)
    (hr : Ready start finish s) (ht : Tracks P d s)
    (h : Probes eval d finish s true s') :
    -(d + turnMargin) ≤ s'.beyond (P s'.time) ∧ s'.beyond (P s'.time) ≤ d + turnMargin := by
  obtain ⟨t, q, p, hp, he, hj⟩ := h
  obtain rfl := heval t p he
  have hq := proposes_of_eq hr hp
  have hbeyond : ∀ x, (q.note t (P t)).beyond x = s.beyond x := beyond_congr hq.forward hq.target
  have hm := tolerances (F := F)
  have hstart : start ≤ s.low := hr.start_le.trans hr.last_le
  -- positions this close in time are within a step length of each other, on either side of the boundary
  have close : ∀ (r : Search F) (x y : F), start ≤ x → x ≤ y → y ≤ finish → y - x ≤ timeTolerance →
      r.beyond (P y) ≤ r.beyond (P x) + d := by
    intro r x y h1 h2 h3 h4
    obtain ⟨h5, h6⟩ := abs_le.1 (hP x y h1 h2 h3 h4)
    unfold beyond
    split <;> linarith
  rcases judge_cases (q.note t (P t)) d with ⟨hs, hpos⟩ | ⟨settled, hs, hset⟩ <;> rw [hs] at hj <;> cases hj
  · obtain ⟨h1, h2⟩ := abs_le.1 hpos
    change -positionTolerance ≤ P t - q.target at h1
    change P t - q.target ≤ positionTolerance at h2
    show -(d + turnMargin) ≤ q.beyond (P t) ∧ q.beyond (P t) ≤ d + turnMargin
    unfold beyond
    split <;> constructor <;> linarith [hm.1, hm.2]
  obtain ⟨hb, hpoint⟩ := hset.1 rfl
  rcases narrow_cases (q.note t (P t)) d with hn | hn | hn
  · have hsame : ∀ x, ((q.note t (P t)).narrow d).beyond x = s.beyond x := fun x =>
      (beyond_congr hn.forward hn.target x).trans (hbeyond x)
    have hpos := hn.position
    rw [hbeyond] at hpos
    rw [hn.high, hn.low] at hpoint
    have hlow : (q.note t (P t)).low = s.low := hq.low
    rw [hlow] at hpoint
    have := close s s.low t hstart hq.low_lt.le hq.le_finish hpoint
    rw [hsame, hn.time]
    show -(d + turnMargin) ≤ s.beyond (P t) ∧ s.beyond (P t) ≤ d + turnMargin
    change 0 < s.beyond (P t) at hpos
    exact ⟨by linarith [hm.1, hm.2], by linarith [ht.low.2]⟩
  · rw [hn.high, hn.low] at hpoint
    have hlast : (q.note t (P t)).last = s.last := hq.last
    rw [hlast] at hpoint
    have := close ((q.note t (P t)).narrow d) s.last t hr.start_le (hr.last_le.trans hq.low_lt.le) hq.le_finish
      hpoint
    have hback := ht.last.turned.2
    have hpos := hn.position
    rw [hbeyond] at hpos
    rw [hn.beyond_eq, hn.beyond_eq, hbeyond, hbeyond] at this
    rw [hn.beyond_eq, hbeyond, hn.time]
    show -(d + turnMargin) ≤ -s.beyond (P t) - 2 * d ∧ -s.beyond (P t) - 2 * d ≤ d + turnMargin
    change s.beyond (P t) < _ at hpos
    exact ⟨by linarith [hm.1, hm.2], by linarith⟩
  · have hsame : ∀ x, ((q.note t (P t)).narrow d).beyond x = s.beyond x := fun x =>
      (beyond_congr hn.forward hn.target x).trans (hbeyond x)
    have hzero := hn.le_zero
    rw [hbeyond] at hzero
    rw [hn.bracketed] at hb
    have hb' : s.bracketed = true := hq.bracketed.symm.trans hb
    have hhigh : (q.note t (P t)).high = s.high := (hq.bracket hb').1
    rw [hn.high, hn.low, hhigh] at hpoint
    have := close s t s.high (hstart.trans hq.low_lt.le) (hq.bracket hb').2.le hr.high_le hpoint
    have := ht.high hb'
    rw [hsame, hn.time]
    show -(d + turnMargin) ≤ s.beyond (P t) ∧ s.beyond (P t) ≤ d + turnMargin
    change s.beyond (P t) ≤ 0 at hzero
    exact ⟨by linarith [hm.1, hm.2], by linarith [hm.1, hm.2]⟩

/-- The next boundary is one step length further. -/
theorem beyond_advance (s : Search F) (d finish x : F) :
    (s.advance d finish).beyond x = s.beyond x - d := by
  simp only [beyond, Search.advance, Stepper.signed]
  by_cases hf : s.forward = true <;> simp only [hf, if_true, Bool.false_eq_true, if_false] <;> ring

theorem advance_tracks
    (h : -(d + turnMargin) ≤ s.beyond (P s.time) ∧ s.beyond (P s.time) ≤ d + turnMargin) :
    Tracks P d (s.advance d finish) := by
  have hnear : Near d ((s.advance d finish).beyond (P s.time)) := by
    rw [beyond_advance]
    constructor <;> linarith [h.1, h.2]
  exact ⟨hnear, hnear, nofun⟩

/-- A range that begins near the commanded position ends near it. -/
theorem run_tracks (heval : Evaluates P eval) (hd : 0 ≤ d)
    (hP : ∀ x y, start ≤ x → x ≤ y → y ≤ finish → y - x ≤ timeTolerance → |P y - P x| ≤ d)
    {commanded base : F} {forward : Bool} (hlt : start < finish)
    (h : |P start - commanded| ≤ d + turnMargin) {fuel : Nat} {steps : Array (Step F)} {lastStep : Option F}
    (hrun : (run eval base d finish fuel (.begin commanded d start finish forward) steps
      lastStep).outcome = .ok s) :
    |P finish - (s.target - Stepper.signed d s.forward)| ≤ d + turnMargin := by
  have round : ∀ s s', (Ready start finish s ∧ Tracks P d s) →
      Probes eval d finish s false s' → Ready start finish s' ∧ Tracks P d s' :=
    fun s s' hs hp => ⟨(hp.ready hs.1).1, hp.tracks heval hs.1 hs.2⟩
  have next : ∀ s s', (Ready start finish s ∧ Tracks P d s) →
      Probes eval d finish s true s' →
        Ready start finish (s'.advance d finish) ∧ Tracks P d (s'.advance d finish) := by
    intro s s' hs hp
    obtain ⟨hlt, hle, hkeep⟩ := hp.found hs.1
    exact ⟨advance_ready (hs.1.start_le.trans hkeep.ge) (by rw [hkeep]; exact hlt) hle,
      advance_tracks (hp.found_near heval hd hP hs.1 hs.2)⟩
  obtain ⟨⟨hready, htracks⟩, hend⟩ := run_ok round next base fuel _ steps lastStep s
    ⟨begin_ready commanded d forward hlt, begin_tracks finish forward h⟩ hrun
  obtain ⟨hfree, htime⟩ := propose_eq_none hready hend
  obtain ⟨h1, h2⟩ := htracks.low
  rw [(hready.free hfree).1, htime] at h1 h2
  rw [abs_le]
  unfold beyond at h1 h2
  unfold Stepper.signed
  cases hf : s.forward <;> simp only [hf, if_true, Bool.false_eq_true, if_false] at h1 h2 ⊢ <;>
    constructor <;> linarith

end Search

end PrinterMotion
