/-
What the pulses of a shaper do to motion at constant velocity. Weights sum to one and their mean time is
zero, so the shaped position on a line in time is the position itself: a shaped model stands where the model
in it does, as long as the shaped axes run along lines as far as the pulses reach, over however many
segments that is.
-/
import PrinterMotion.Proofs.Kinematics.Rest

namespace PrinterMotion

variable {F : Type} [Exact F]

/-! ## Pulses -/

namespace PulseTrain

/-- The weights sum to one, and the weighted mean of the times is zero. -/
structure Centred (train : PulseTrain F) : Prop where
  weights : (train.map (·.weight)).sum = 1
  times : (train.map fun p => p.weight * p.time).sum = 0

variable {n : Nat} {amplitudes times : List F} {train : PulseTrain F}

/-- The weighted sum of a line over the times of pulses. -/
theorem sum_line (base rate : F) : ∀ train : PulseTrain F,
    (train.map fun p => p.weight * (base + rate * p.time)).sum =
      base * (train.map (·.weight)).sum + rate * (train.map fun p => p.weight * p.time).sum
  | [] => by simp
  | p :: rest => by
    simp only [List.map_cons, List.sum_cons, sum_line base rate rest]
    ring

/-- The pulses before they are moved: amplitudes are divided by their sum, and times negated. -/
def mirrored (amplitudes times : List F) : PulseTrain F :=
  ((amplitudes.zip times).map fun (a, t) => Pulse.mk (-t) (a / amplitudes.sum)).reverse

/-- Pulses moved in time. -/
def earlier (train : PulseTrain F) (offset : F) : PulseTrain F :=
  train.map fun p => { p with time := p.time - offset }

/-- What it says that impulses are accepted. -/
theorem ofShaper_eq_ok (hn : 1 ≤ n) (h : ofShaper n amplitudes times = .ok train) :
    amplitudes.length = times.length ∧ amplitudes.sum ≠ 0 ∧ train = (mirrored amplitudes times).earlier
      ((mirrored amplitudes times).map fun p => p.weight * p.time).sum := by
  unfold ofShaper at h
  split at h
  · cases h
  split at h
  · cases h
  rename_i hcounts
  rw [if_neg (by omega)] at h
  dsimp only at h
  split at h
  · cases h
  rename_i hsum
  rw [Scalar.sum_eq] at hsum h
  cases h
  refine ⟨by omega, by simpa using hsum, ?_⟩
  rw [Scalar.sum_eq]
  rfl

theorem weights_mirrored (hlength : amplitudes.length = times.length) (hsum : amplitudes.sum ≠ 0) :
    ((mirrored amplitudes times).map (·.weight)).sum = 1 := by
  have hweights : ((amplitudes.zip times).map fun (a, t) => Pulse.mk (-t) (a / amplitudes.sum)).map (·.weight) =
      ((amplitudes.zip times).map Prod.fst).map (· * amplitudes.sum⁻¹) := by
    simp [Function.comp_def, div_eq_mul_inv]
  rw [mirrored, List.map_reverse, List.sum_reverse, hweights, List.map_fst_zip hlength.le, List.sum_map_mul_right,
    List.map_id', mul_inv_cancel₀ hsum]

/-- Moved to their mean, pulses whose weights sum to one are centred. -/
theorem centred_earlier (h : (train.map (·.weight)).sum = 1) :
    (train.earlier (train.map fun p => p.weight * p.time).sum).Centred := by
  constructor
  · rw [earlier, List.map_map]
    exact h
  · have hline := sum_line (-(train.map fun p => p.weight * p.time).sum) 1 train
    rw [h, mul_one, one_mul, neg_add_cancel] at hline
    rw [earlier, List.map_map, ← hline]
    refine congrArg List.sum (List.map_congr_left fun p _ => ?_)
    simp only [Function.comp_apply]
    ring

theorem centred_ofShaper (hn : 1 ≤ n) (h : ofShaper n amplitudes times = .ok train) : train.Centred := by
  obtain ⟨hlength, hsum, rfl⟩ := ofShaper_eq_ok hn h
  exact centred_earlier (weights_mirrored hlength hsum)

/-- Pulses are in the order of the impulses they are made of. -/
theorem pairwise_ofShaper {r : F → F → Prop} (hr : ∀ {a b : F} (c : F), r a b → r (-b - c) (-a - c)) (hn : 1 ≤ n)
    (h : ofShaper n amplitudes times = .ok train) (htimes : times.Pairwise r) : (train.map (·.time)).Pairwise r := by
  obtain ⟨hlength, -, rfl⟩ := ofShaper_eq_ok hn h
  rw [← List.map_snd_zip hlength.ge] at htimes
  have hpairs := List.pairwise_map.1 htimes
  rw [List.pairwise_map, earlier, List.pairwise_map, mirrored, List.pairwise_reverse, List.pairwise_map]
  exact hpairs.imp fun hle => hr _ hle

/-- Impulses that do not go back in time give pulses that do not either. -/
theorem ascending_ofShaper (hn : 1 ≤ n) (h : ofShaper n amplitudes times = .ok train)
    (htimes : times.Pairwise (· ≤ ·)) : train.Ascending :=
  List.pairwise_map.1 (pairwise_ofShaper (fun c hle => sub_le_sub_right (neg_le_neg hle) c) hn h htimes)

/-- Made of the impulses of some shaper. -/
def Tuned (train : PulseTrain F) : Prop := ∃ n amplitudes times, ofShaper n amplitudes times = .ok train

theorem Tuned.centred (h : train.Tuned) (hne : train ≠ []) : train.Centred := by
  obtain ⟨n, amplitudes, times, hok⟩ := h
  refine centred_ofShaper (Nat.one_le_iff_ne_zero.2 ?_) hok
  rintro rfl
  unfold ofShaper at hok
  split at hok
  · cases hok
  split at hok
  · cases hok
  · cases hok
    exact hne rfl

/-- Centred pulses leave a line as it is. -/
theorem Centred.shape_eq (h : train.Centred) {c : Cursor F} {i : Axis} {t base rate : F}
    (hline : ∀ p ∈ train, c.axisAt i (t + p.time) = base + rate * (t + p.time)) :
    train.shape c i t = base + rate * t := by
  have hsum := sum_line (base + rate * t) rate train
  rw [h.weights, h.times, mul_one, mul_zero, add_zero] at hsum
  rw [shape, Scalar.sum_eq, ← hsum]
  refine congrArg List.sum (List.map_congr_left fun p hp => ?_)
  rw [hline p hp]
  ring

end PulseTrain

/-! ## Lines in time -/

/-- Where segments move along an axis at one velocity, the distance travelled grows with time. -/
theorem Gauge.travel_line {i : Axis} {lo hi v x : F} (hx : lo ≤ x) (hx' : x ≤ hi) :
    ∀ {a : Stand F} {row : List (Segment F)} (p : Coord F), Joined a row → a.time ≤ lo → hi ≤ (a.after row).time →
      (∀ s ∈ row, s.start < hi → lo < s.finish →
        s.direction.get i * s.velocity = v ∧ s.direction.get i * s.halfAccel = 0) →
        (travel i).read .left p row x = (travel i).read .left p row lo + v * (x - lo)
  | a, [], _, _, hlo, hhi, _ => by
    have hend : hi ≤ a.time := hhi
    obtain rfl : x = lo := le_antisymm (by linarith) hx
    ring
  | a, s :: rest, p, hj, hlo, hhi, hv => by
    have hrest : ∀ u ∈ rest, u.start < hi → lo < u.finish → _ := fun u hu => hv u (List.mem_cons_of_mem _ hu)
    have hstart : s.start ≤ lo := hj.1.trans_le hlo
    by_cases hbehind : s.finish ≤ lo
    · rw [(travel_smooth i).read_cons_of_le hj p (hbehind.trans hx), (travel_smooth i).read_cons_of_le hj p hbehind,
        travel_line hx hx' s.target hj.2.2 hbehind hhi hrest]
      ring
    by_cases hlate : hi ≤ s.start
    · obtain rfl : x = lo := le_antisymm (by linarith) hx
      ring
    rw [not_le] at hbehind hlate
    obtain ⟨hvelocity, haccel⟩ := hv s List.mem_cons_self hlate hbehind
    -- Up to its end the segment is on the line itself.
    have hinside : ∀ y, s.start ≤ y → y ≤ s.finish → (travel i).read .left p (s :: rest) y = v * (y - s.start) := by
      intro y hy hy'
      have hline : s.direction.get i * s.distanceAt (y - s.start) = v * (y - s.start) := by
        rw [Segment.distanceAt]
        linear_combination (y - s.start) * hvelocity + (y - s.start) ^ 2 * haccel
      rw [read]
      simp only [Side.before_left]
      split
      · rw [le_antisymm (by assumption) hy, sub_self, mul_zero]
        rfl
      · exact hline
    rw [hinside lo hstart hbehind.le]
    by_cases hupp : x ≤ s.finish
    · rw [hinside x (hstart.trans hx) hupp]
      ring
    · rw [not_le] at hupp
      have hzero : (travel i).read .left s.target rest s.finish = 0 := read_of_before fun u hu => hj.2.2.le_start u hu
      have hafter := travel_line hupp.le hx' s.target hj.2.2 le_rfl hhi fun u hu hlate hearly =>
        hrest u hu hlate (hbehind.trans hearly)
      have hlast := hinside s.finish (Segment.start_le_finish hj.2.1) le_rfl
      have hstep : (travel i).step p s = v * (s.finish - s.start) := by
        rw [(travel_smooth i).read_cons_of_le hj p le_rfl, hzero, add_zero] at hlast
        exact hlast
      rw [(travel_smooth i).read_cons_of_le hj p hupp.le, hafter, hzero, hstep]
      ring

namespace Cursor

/-- Between two times, counted from the start of the place, the position along an axis runs along a line. -/
def LineOn (c : Cursor F) (i : Axis) (lo hi : F) : Prop :=
  ∃ base rate, ∀ u, lo ≤ u → u ≤ hi → c.axisAt i u = base + rate * u

/-- It does so where all segments move along the axis at one velocity. -/
theorem Steady.lineOn {c : Cursor F} {a : Stand F} (h : c.Steady a) (hu : Unbroken c.segments.toList) {i : Axis}
    {lo hi v : F} (hlo : a.time ≤ c.queued.start + lo)
    (hhi : c.queued.start + hi ≤ (a.after c.segments.toList).time)
    (hv : ∀ s ∈ c.segments.toList, s.start < c.queued.start + hi → c.queued.start + lo < s.finish →
      s.direction.get i * s.velocity = v ∧ s.direction.get i * s.halfAccel = 0) : c.LineOn i lo hi := by
  refine ⟨a.place.get i + (Gauge.travel i).read .left a.place c.segments.toList (c.queued.start + lo) - v * lo, v,
    fun u hlow hupp => ?_⟩
  rw [h.seek_axisAt_eq hu, Gauge.travel_line (by linarith) (by linarith) a.place h.joined hlo hhi hv]
  ring

/-- Inside its own segment a cursor reads that segment. -/
theorem axisAt_of_inside {c : Cursor F} {t : F} (ht : 0 ≤ t) (ht' : t ≤ c.current.duration) (i : Axis) :
    c.axisAt i t = c.current.axisAt i t := by
  have hforward : c.forward t = (c, t) := by
    rw [forward]
    split
    · rfl
    · exact if_neg (not_lt.2 ht')
  rw [axisAt, coordAt, seek, rewind_of_nonneg (.inr ht)]
  simp only [hforward]
  exact Segment.get_coordAt _ i t

end Cursor

/-! ## Models -/

namespace Model

/-- The models that look only at the point that motion has reached, on carriages too. -/
def Punctual : Model F → Prop
  | dualCarriage _ inner => inner.Punctual
  | m => m.Pointwise

theorem Punctual.position_eq {m : Model F} (hm : m.Punctual) {c c' : Cursor F} {t t' : F}
    (h : ∀ i, c.current.axisAt i t = c'.current.axisAt i t') : m.position c t = m.position c' t' := by
  induction m generalizing c c' with
  | dualCarriage carriage inner ih =>
    refine ih hm fun i => ?_
    rw [Cursor.current_withCurrent, Cursor.current_withCurrent, Carriage.axisAt_apply, Carriage.axisAt_apply, h i]
  | extruder _ => exact hm.elim
  | inputShaper _ _ => exact hm.elim
  | _ => exact Pointwise.position_eq hm fun i _ => h i

end Model

namespace Shaping

/-- The pulses of each axis are those of some shaper. -/
def Tuned (s : Shaping F) : Prop := s.x.Tuned ∧ s.y.Tuned

variable {s : Shaping F}

theorem Tuned.centred (h : s.Tuned) {i : Axis} {train : PulseTrain F} (hs : s.pulses? i = some train)
    (hne : train ≠ []) : train.Centred := by
  cases i <;> cases hs
  · exact h.1.centred hne
  · exact h.2.centred hne

/-- A shaper with centred pulses puts nothing in another place while the axes it shapes run along lines as far
as its pulses reach. -/
theorem Tuned.axisAt_apply (h : s.Tuned) {c : Cursor F} {t : F} (ht : 0 ≤ t) (ht' : t ≤ c.current.duration)
    (hline : ∀ i train, s.pulses? i = some train → train ≠ [] →
      ∃ lo hi, c.LineOn i lo hi ∧ (lo ≤ t ∧ t ≤ hi) ∧ ∀ p ∈ train, lo ≤ t + p.time ∧ t + p.time ≤ hi) (i : Axis) :
    (s.apply c t).axisAt i t = c.current.axisAt i t := by
  rw [Shaping.axisAt_apply]
  cases hs : s.pulses? i with
  | none => rfl
  | some train =>
    by_cases hne : train = []
    · simp [hne]
    · obtain ⟨lo, hi, ⟨base, rate, hread⟩, ⟨hlo, hhi⟩, hpulses⟩ := hline i train hs hne
      have hshape := (h.centred hs hne).shape_eq fun p hp => hread _ (hpulses p hp).1 (hpulses p hp).2
      have hempty : train.isEmpty = false := by simpa using hne
      simp only [hempty, Bool.false_eq_true, if_false]
      rw [hshape, ← hread t hlo hhi, c.axisAt_of_inside ht ht']

end Shaping

/-- The pulses that are made of the amplitudes and times of a shaper have weights that sum to one, about the
mean time zero; if the times do not go back, each lies in the windows that the pulses, and a model shaped by
them, declare. So a shaped model stands where the model in it does at every time in a queued segment, if each
shaped axis runs along a line from before to behind all pulses. -/
theorem shaping_keeps_lines :
    (∀ (n : Nat) (amplitudes times : List F) (train : PulseTrain F), 1 ≤ n →
      PulseTrain.ofShaper n amplitudes times = .ok train → train.Centred ∧
        (times.Pairwise (· ≤ ·) → ∀ p ∈ train, (-train.lookBehind ≤ p.time ∧ p.time ≤ train.lookAhead) ∧
          ∀ (s : Shaping F) (m : Model F) (i : Axis), m.axes.has i = true → s.pulses? i = some train →
            -(Model.inputShaper s m).after ≤ p.time ∧ p.time ≤ (Model.inputShaper s m).before)) ∧
    ∀ (s : Shaping F) (m : Model F), s.Tuned → m.Punctual →
      ∀ (q : Queue F) (k : Nat) (c : Cursor F) (t : F), q.cursor? k = some c → 0 ≤ t → t ≤ c.current.duration →
        (∀ i train, s.pulses? i = some train → train ≠ [] →
          ∃ lo hi, c.LineOn i lo hi ∧ (lo ≤ t ∧ t ≤ hi) ∧ ∀ p ∈ train, lo ≤ t + p.time ∧ t + p.time ≤ hi) →
          (Model.inputShaper s m).position c t = m.position c t := by
  refine ⟨fun n amplitudes times train hn hok => ⟨PulseTrain.centred_ofShaper hn hok, fun htimes p hp => ?_⟩,
    fun s m hs hm q k c t _ ht ht' hline => ?_⟩
  · obtain ⟨hbehind, hahead⟩ := (PulseTrain.ascending_ofShaper hn hok htimes).bounds p hp
    refine ⟨⟨hbehind, hahead⟩, fun s m i hi hpulses => ?_⟩
    obtain ⟨hbefore, hafter⟩ := Shaping.windows_cover hi hpulses (by simpa using List.ne_nil_of_mem hp)
    simp only [Model.before, Model.after]
    constructor <;> linarith
  · simp only [Model.position]
    split
    · rfl
    · refine hm.position_eq fun i => ?_
      rw [Cursor.current_withCurrent]
      exact hs.axisAt_apply ht ht' hline i

/-- Two moves that are as fast as each other along the first two axes, from 1 s to 2 s and from there to 4 s. -/
def diagonal : Queue ℚ :=
  (Queue.empty.addAll [⟨1, 1, 2, 0, ⟨0, 0, 0⟩, ⟨1, 1 / 2, 0⟩, .cruise⟩,
    ⟨2, 2, 4, 0, ⟨2, 1, 0⟩, ⟨1 / 2, 1 / 4, 1⟩, .cruise⟩]).1

/-- Pulses for the first two axes, of impulses a fifth of a second and two fifths apart. -/
def diagonalPulses : Shaping ℚ :=
  ⟨[⟨-1 / 10, 1 / 2⟩, ⟨1 / 10, 1 / 2⟩], [⟨-1 / 10, 3 / 4⟩, ⟨3 / 10, 1 / 4⟩]⟩

/-- A belt on a carriage that runs against the first axis. -/
def mirroredBelt : Model ℚ := .dualCarriage ⟨-1, 5, 1, 0, .xy⟩ (.coreXY true)

/-- Just behind the start of the second move the pulses still reach into the first one. -/
theorem shaping_keeps_diagonal : diagonalPulses.x.Centred ∧
    (∀ p ∈ diagonalPulses.x, -(Model.inputShaper diagonalPulses mirroredBelt).after ≤ p.time ∧
      p.time ≤ (Model.inputShaper diagonalPulses mirroredBelt).before) ∧
    ∃ c, diagonal.cursor? 2 = some c ∧
      (Model.inputShaper diagonalPulses mirroredBelt).position c (1 / 20) = mirroredBelt.position c (1 / 20) := by
  have hx : PulseTrain.ofShaper 2 [1, 1] [0, 1 / 5] = .ok diagonalPulses.x := by
    norm_num [diagonalPulses, PulseTrain.ofShaper, PulseTrain.maxPulses, Scalar.sum]
  have hy : PulseTrain.ofShaper 2 [1, 3] [0, 2 / 5] = .ok diagonalPulses.y := by
    norm_num [diagonalPulses, PulseTrain.ofShaper, PulseTrain.maxPulses, Scalar.sum]
  obtain ⟨hcentred, hwindows⟩ := shaping_keeps_lines.1 2 _ _ _ (by norm_num) hx
  have hc : diagonal.cursor? 2 = some ⟨diagonal.active, by decide +kernel, 2, none⟩ := dif_pos (by decide +kernel)
  have hst : Cursor.Steady ⟨diagonal.active, by decide +kernel, 2, none⟩ ⟨⟨0, 0, 0⟩, 0⟩ :=
    ⟨rfl, by decide +kernel, by decide +kernel⟩
  refine ⟨hcentred, fun p hp => (hwindows (by decide +kernel) p hp).2 _ _ .x rfl rfl, _, hc, ?_⟩
  have hm : mirroredBelt.Punctual := trivial
  refine shaping_keeps_lines.2 _ _ ⟨⟨_, _, _, hx⟩, ⟨_, _, _, hy⟩⟩ hm diagonal 2 _ _ hc ?_ ?_ ?_
  · norm_num
  · decide +kernel
  · intro i train hpulses _
    cases i <;> cases hpulses
    · exact ⟨-1 / 20, 3 / 20, hst.lineOn (v := 2) (by decide +kernel) (by decide +kernel) (by decide +kernel)
        (by decide +kernel), by norm_num, by decide +kernel⟩
    · exact ⟨-1 / 20, 7 / 20, hst.lineOn (v := 1) (by decide +kernel) (by decide +kernel) (by decide +kernel)
        (by decide +kernel), by norm_num, by decide +kernel⟩

end PrinterMotion
