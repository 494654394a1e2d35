/-
What accepted shaper parameters are good for. Below a damping ratio of one, the impulses of every kind are computed
without a division by zero: their amplitudes are positive, their times grow from zero, and a pulse train is made of
them. A damping ratio of one is accepted too, but there the period is divided by zero.
-/
import PrinterMotion.Proofs.Kinematics.Centring
import PrinterMotion.Proofs.Partial
import PrinterMotion.Proofs.Shaping.Switching
import PrinterMotion.Proofs.StepGenerator.Requests

namespace PrinterMotion

open Partial

/-! ## Impulses -/

namespace ShaperKind

variable {freq damping : ℝ}

theorem root_pos (hz : 0 ≤ damping) (hz' : damping < 1) : 0 < 1.0 - damping * damping := by
  norm_num
  nlinarith

theorem period_pos (hf : 0 < freq) (hz : 0 ≤ damping) (hz' : damping < 1) :
    0 < 1.0 / (freq * √(1.0 - damping * damping)) := by
  have := Real.sqrt_pos.2 (root_pos hz hz')
  positivity

theorem tolerance_bounds : 0 < 1.0 / (vibrationReduction : ℝ) ∧ 1.0 / (vibrationReduction : ℝ) < 1 := by
  norm_num [vibrationReduction]

/-- The impulses are the real ones: whatever they are divided by is not zero. -/
theorem impulses_real (kind : ShaperKind) (hf : 0 < freq) (hz : 0 ≤ damping) (hz' : damping < 1) :
    kind.impulses (number freq) (number damping) =
      ((kind.impulses freq damping).1.map number, (kind.impulses freq damping).2.map number) := by
  have hdf : 0 < (Scalar.sqrt (1.0 - damping * damping) : ℝ) := Real.sqrt_pos.2 (root_pos hz hz')
  have hroot : Scalar.sqrt (1.0 - number damping * number damping) = number (Scalar.sqrt (1.0 - damping * damping)) :=
    number_sqrt (root_pos hz hz').le
  have hperiod : 1.0 / (number freq * number (Scalar.sqrt (1.0 - damping * damping))) =
      number (1.0 / (freq * Scalar.sqrt (1.0 - damping * damping))) := number_div _ (mul_pos hf hdf).ne'
  have hdecay : ∀ x : ℝ, number x / number (Scalar.sqrt (1.0 - damping * damping)) =
      number (x / Scalar.sqrt (1.0 - damping * damping)) := fun x => number_div x hdf.ne'
  have htolerance : 1.0 / (vibrationReduction : Partial ℝ) = number (1.0 / vibrationReduction) :=
    number_div _ (by norm_num [vibrationReduction])
  obtain ⟨htol, htol'⟩ := tolerance_bounds
  simp only [impulses, hroot, hperiod, htolerance]
  generalize (Scalar.sqrt (1.0 - damping * damping) : ℝ) = df at hdecay ⊢
  generalize 1.0 / (freq * df) = period
  generalize 1.0 / (vibrationReduction : ℝ) = tol at htol htol' ⊢
  cases kind <;> simp only [number_lit, number_add, number_sub, number_mul, number_neg, number_exp, number_pi, hdecay,
    List.map_cons, List.map_nil]
  case mzv =>
    have htwo : 0 < (Scalar.sqrt 2.0 : ℝ) := Real.sqrt_pos.2 (by norm_num)
    simp only [number_sqrt (show (0 : ℝ) ≤ 2.0 by norm_num), number_div _ htwo.ne', number_sub, number_mul]
  case twoHumpEi =>
    have hlow : (0 : ℝ) ≤ 1.0 - tol * tol := by
      norm_num
      nlinarith
    have hbase : 0 < tol * tol * (Scalar.sqrt (1.0 - tol * tol) + 1.0) := by
      have : 0 ≤ (Scalar.sqrt (1.0 - tol * tol) : ℝ) := Real.sqrt_nonneg _
      positivity
    have hcube : (0 : ℝ) < 16.0 * Scalar.pow (tol * tol * (Scalar.sqrt (1.0 - tol * tol) + 1.0)) (1.0 / 3.0) :=
      mul_pos (by norm_num) (Real.rpow_pos_of_pos hbase _)
    simp only [number_sqrt hlow, number_div _ (show (3.0 : ℝ) ≠ 0 by norm_num), number_add, number_mul,
      number_pow hbase, number_div _ hcube.ne', number_sub]
  case threeHumpEi =>
    simp only [number_sqrt (show (0 : ℝ) ≤ 2.0 * (tol + 1.0) * tol by positivity), number_add, number_sub,
      number_mul]

/-- Times grow from zero. -/
theorem times_ascend (kind : ShaperKind) (hf : 0 < freq) (hz : 0 ≤ damping) (hz' : damping < 1) :
    (kind.impulses freq damping).2.head? = some 0 ∧ (kind.impulses freq damping).2.Pairwise (· < ·) := by
  have hperiod := period_pos hf hz hz'
  have hsqrt : ∀ x : ℝ, Scalar.sqrt x = √x := fun _ => rfl
  refine ⟨by cases kind <;> simp [impulses], ?_⟩
  cases kind <;> simp only [impulses, hsqrt, List.pairwise_cons, List.mem_cons, List.not_mem_nil, or_false,
    forall_eq_or_imp, forall_eq, false_imp_iff, implies_true, and_true, List.Pairwise.nil]
  all_goals
    generalize 1.0 / (freq * √(1.0 - damping * damping)) = period at hperiod ⊢
    and_intros <;> linarith

end ShaperKind

/-! ## Pulses -/

namespace PulseTrain

/-- Real pulses. -/
def numbers (train : PulseTrain ℝ) : PulseTrain (Partial ℝ) := train.map fun p => ⟨.number p.time, .number p.weight⟩

theorem isFinite_number (x : ℝ) : Scalar.isFinite (Partial.number x) = true := by
  simp [Scalar.isFinite, number_lit]

/-- Where a train can be made of real impulses, it is made here too. -/
theorem ofShaper_real {n : Nat} {amplitudes times : List ℝ} {train : PulseTrain ℝ}
    (h : ofShaper n amplitudes times = .ok train) :
    ofShaper n (amplitudes.map .number) (times.map .number) = .ok (numbers train) := by
  unfold ofShaper at h ⊢
  rw [List.length_map, List.length_map, sum_number]
  split at h
  · cases h
  rename_i hmax
  split at h
  · cases h
  rename_i hlength
  rw [if_neg hmax, if_neg hlength]
  split at h
  · rename_i hzero
    rw [if_pos hzero]
    cases h
    rfl
  rename_i hzero
  rw [if_neg hzero]
  dsimp only at h ⊢
  split at h
  · cases h
  rename_i hsum
  generalize Scalar.sum amplitudes = total at h hsum ⊢
  have htotal : total ≠ 0 := by
    rintro rfl
    simp at hsum
  rw [if_neg (by simp [number_lit, isFinite_number, htotal])]
  cases h
  have hreversed : (((amplitudes.map Partial.number).zip (times.map Partial.number)).map fun (a, t) =>
      Pulse.mk (-t) (a / Partial.number total)).reverse =
        numbers ((amplitudes.zip times).map fun (a, t) => Pulse.mk (-t) (a / total)).reverse := by
    rw [numbers, List.map_reverse, List.zip_map, List.map_map, List.map_map]
    refine congrArg List.reverse (List.map_congr_left fun p _ => ?_)
    simp only [Function.comp_apply, Prod.map_fst, Prod.map_snd, number_neg, number_div _ htotal]
  rw [hreversed]
  generalize ((amplitudes.zip times).map fun (a, t) => Pulse.mk (-t) (a / total)).reverse = reversed
  have hcentre : (numbers reversed).map (fun p => p.weight * p.time) =
      (reversed.map fun p => p.weight * p.time).map Partial.number := by
    rw [numbers, List.map_map, List.map_map]
    rfl
  rw [hcentre, sum_number, numbers, numbers, List.map_map, List.map_map]
  rfl

/-- Pulses that follow each other at times that are there. -/
def Timed (train : PulseTrain (Partial ℝ)) : Prop :=
  ∃ pulses : PulseTrain ℝ, train = numbers pulses ∧ (pulses.map (·.time)).Pairwise (· < ·)

end PulseTrain

/-- Other pulses on an axis, at times that are there; those of the other axes are as they were. -/
structure Shaping.Retuned (axis : Char) (before after : Shaping (Partial ℝ)) : Prop where
  timed : ∃ (i : Axis) (train : PulseTrain (Partial ℝ)), i.letter = axis ∧ after.pulses? i = some train ∧ train.Timed
  others : ∀ i : Axis, i.letter ≠ axis → after.pulses? i = before.pulses? i

/-- Amplitudes and times that a pulse train is made of: positive ones, and ones that grow from zero, as many as each
other and no more than a train holds. All are there, so none has come of a quotient by zero. -/
structure Usable (impulses : List (Partial ℝ) × List (Partial ℝ)) : Prop where
  amplitudes : ∃ amplitudes : List ℝ, impulses.1 = amplitudes.map number ∧ ∀ a ∈ amplitudes, 0 < a
  times : ∃ times : List ℝ, impulses.2 = times.map number ∧ times.head? = some 0 ∧ times.Pairwise (· < ·)
  count : impulses.2.length = impulses.1.length ∧ impulses.1.length ≤ PulseTrain.maxPulses
  accepted : ∃ train, PulseTrain.ofShaper impulses.1.length impulses.1 impulses.2 = .ok train ∧ train.Timed

theorem ShaperKind.usable_impulses (kind : ShaperKind) {freq damping : ℝ} (hf : 0 < freq) (hz : 0 ≤ damping)
    (hz' : damping < 1) : Usable (kind.impulses (number freq) (number damping)) := by
  obtain ⟨hlength, hmax⟩ := kind.length_impulses freq damping
  obtain ⟨hzero, hascend⟩ := kind.times_ascend hf hz hz'
  rw [kind.impulses_real hf hz hz']
  refine ⟨⟨_, rfl, kind.amplitudes_pos freq damping⟩, ⟨_, rfl, hzero, hascend⟩, by simpa using ⟨hlength, hmax⟩, ?_⟩
  -- a frequency that is not zero shapes, and real impulses are accepted
  obtain ⟨train, htrain⟩ := ShaperParams.ofShaper_impulses ⟨kind, freq, damping⟩
  rw [ShaperParams.impulses, if_neg (by simpa using hf.ne')] at htrain
  have hmany : 1 ≤ (kind.impulses freq damping).1.length := by
    rw [← hlength]
    exact List.length_pos_of_mem (List.mem_of_mem_head? hzero)
  exact ⟨_, by rw [List.length_map]; exact PulseTrain.ofShaper_real htrain, train, rfl,
    PulseTrain.pairwise_ofShaper (fun c h => sub_lt_sub_right (neg_lt_neg h) c) hmany htrain hascend⟩

/-! ## Allowed parameters -/

theorem checkFreq_real {f : ℝ} (hf : 0 ≤ f) : checkFreq (number f) = .ok () := by
  refine if_pos ?_
  rw [number_zero]
  exact hf

theorem checkDamping_real {z : ℝ} (hz : 0 ≤ z) (hz' : z ≤ 1) : checkDamping (number z) = .ok () := by
  refine if_pos ?_
  rw [number_zero, number_one]
  exact ⟨hz, hz'⟩

theorem checkFreq_eq_ok {freq : Partial ℝ} (h : checkFreq freq = .ok ()) : ∃ f, freq = number f ∧ 0 ≤ f := by
  unfold checkFreq at h
  split at h
  · rename_i hle
    obtain ⟨zero, f, hzero, rfl, hf⟩ := exists_of_le hle
    cases number_zero.symm.trans hzero
    exact ⟨f, rfl, hf⟩
  · cases h

theorem checkDamping_eq_ok {damping : Partial ℝ} (h : checkDamping damping = .ok ()) :
    ∃ z, damping = number z ∧ 0 ≤ z ∧ z ≤ 1 := by
  unfold checkDamping at h
  split at h
  · rename_i hle
    obtain ⟨zero, z, hzero, rfl, hz⟩ := exists_of_le hle.1
    cases number_zero.symm.trans hzero
    rw [number_one, number_le] at hle
    exact ⟨z, rfl, hz, hle.2⟩
  · cases h

/-- The impulses of every kind are usable, at any frequency above zero and any accepted damping ratio but one. -/
theorem ShaperKind.usable_of_check (kind : ShaperKind) {freq damping : Partial ℝ} (hfreq : 0.0 < freq)
    (hdamping : checkDamping damping = .ok ()) (hone : damping ≠ 1.0) : Usable (kind.impulses freq damping) := by
  obtain ⟨z, rfl, hz, hz'⟩ := checkDamping_eq_ok hdamping
  cases freq with
  | missing => exact hfreq.elim
  | number f =>
    rw [number_zero, number_lt] at hfreq
    refine kind.usable_impulses hfreq hz (lt_of_le_of_ne hz' ?_)
    rintro rfl
    exact hone number_one.symm

theorem Entries.pick_mem {β : Type} (e : Entries β) (i : Nat) : e.pick i ∈ e.toList := by
  unfold pick
  cases h : e.toList[i]? with
  | none => exact List.getLast_mem _
  | some b => exact List.mem_of_getElem? h

theorem ShaperUpdate.check_eq_ok {α : Type} [Scalar α] {u : ShaperUpdate α} (h : u.check = .ok ()) :
    (∀ f ∈ u.freq, checkFreq f = .ok ()) ∧ ∀ z ∈ u.damping, checkDamping z = .ok () := by
  obtain ⟨kind, freq, damping⟩ := u
  cases freq with
  | none =>
    refine ⟨nofun, ?_⟩
    rintro z ⟨⟩
    exact h
  | some f =>
    obtain ⟨_, hfreq, h⟩ := bind_eq_ok.1 h
    refine ⟨?_, ?_⟩
    · rintro f ⟨⟩
      exact hfreq
    · rintro z ⟨⟩
      exact h

namespace ShaperParams

/-- Parameters that pass the checks. -/
structure Allowed (p : ShaperParams (Partial ℝ)) : Prop where
  freq : checkFreq p.freq = .ok ()
  damping : checkDamping p.damping = .ok ()

/-- Pulses are made of accepted parameters, at times that are there, unless they shape with a damping ratio of one. -/
theorem Allowed.timed {p : ShaperParams (Partial ℝ)} (h : p.Allowed)
    (hone : (p.freq == (0.0 : Partial ℝ)) = false → p.damping ≠ 1.0) :
    ∃ train, PulseTrain.ofShaper p.impulses.1.length p.impulses.1 p.impulses.2 = .ok train ∧ train.Timed := by
  unfold impulses
  split
  · exact ⟨[], by simp [PulseTrain.ofShaper], [], rfl, List.Pairwise.nil⟩
  · rename_i hshapes
    obtain ⟨f, hfreq, hf⟩ := checkFreq_eq_ok h.freq
    have hne : f ≠ 0 := by
      rintro rfl
      exact hshapes (by simp [hfreq, number_zero])
    refine (p.kind.usable_of_check ?_ h.damping (hone (Bool.eq_false_of_not_eq_true hshapes))).accepted
    rw [hfreq, number_zero, number_lt]
    exact lt_of_le_of_ne hf hne.symm

end ShaperParams

namespace AxisShaper

variable {α : Type} [Scalar α]

/-- Settings that come of entries and of the calls that change them. -/
inductive Configured : AxisShaper α → Prop
  | made {axis : Char} {kinds : List ShaperKind} {freqs dampings : List α} {s : AxisShaper α}
      (h : ofEntries? axis kinds freqs dampings = .ok s) : Configured s
  | selected {s : AxisShaper α} (h : Configured s) (toolhead : Nat) (mode : CarriageMode) :
      Configured (s.select toolhead mode)
  | updated {s s' : AxisShaper α} {u : ShaperUpdate α} (h : Configured s) (hu : s.update u = .ok s') : Configured s'
  | disabled {s : AxisShaper α} (h : Configured s) : Configured s.disable
  | enabled {s : AxisShaper α} (h : Configured s) : Configured s.enable

/-- All entries and all parameters have passed the checks. -/
structure Checked (s : AxisShaper (Partial ℝ)) : Prop where
  axis : s.axis = 'x' ∨ s.axis = 'y'
  freqs : ∀ f ∈ s.freqs.toList, checkFreq f = .ok ()
  dampings : ∀ z ∈ s.dampings.toList, checkDamping z = .ok ()
  params : s.params.Allowed
  saved : ∀ p ∈ s.saved, p.Allowed

variable {s s' : AxisShaper (Partial ℝ)}

theorem accepted_entry (h : s.Checked) (toolhead : Nat) (mode : CarriageMode) : (s.entry toolhead mode).Allowed :=
  ⟨h.freqs _ (Entries.pick_mem _ _), h.dampings _ (Entries.pick_mem _ _)⟩

theorem checked_ofEntries? {axis : Char} {kinds : List ShaperKind} {freqs dampings : List (Partial ℝ)}
    (h : ofEntries? axis kinds freqs dampings = .ok s) : s.Checked := by
  unfold ofEntries? at h
  split at h
  · cases h
  rename_i haxis
  split at h
  · cases h
  obtain ⟨_, hfreqs, h⟩ := bind_eq_ok.1 h
  obtain ⟨_, hdampings, h⟩ := bind_eq_ok.1 h
  cases h
  have hfreqs := forall_of_forM hfreqs
  have hdampings := forall_of_forM hdampings
  exact ⟨by simpa [or_iff_not_imp_left] using haxis, hfreqs, hdampings,
    ⟨hfreqs _ List.mem_cons_self, hdampings _ List.mem_cons_self⟩, nofun⟩

theorem Checked.select (h : s.Checked) (toolhead : Nat) (mode : CarriageMode) : (s.select toolhead mode).Checked := by
  have hentry := accepted_entry h toolhead mode
  cases hs : s.saved with
  | none =>
    rw [select_of_none hs]
    exact ⟨h.axis, h.freqs, h.dampings, hentry, h.saved⟩
  | some p =>
    rw [select_of_saved hs]
    exact ⟨h.axis, h.freqs, h.dampings, h.params, by simpa using hentry⟩

theorem Checked.enable (h : s.Checked) : s.enable.Checked := by
  unfold AxisShaper.enable
  split
  · rename_i p hp
    exact ⟨h.axis, h.freqs, h.dampings, h.saved p hp, nofun⟩
  · exact h

theorem Checked.disable (h : s.Checked) : s.disable.Checked := by
  refine ⟨h.axis, h.freqs, h.dampings, ⟨?_, h.params.damping⟩, fun p hp => ?_⟩
  · rw [AxisShaper.disable, number_zero]
    exact checkFreq_real le_rfl
  unfold AxisShaper.disable at hp
  dsimp only at hp
  split at hp
  · cases hp
    exact h.params
  · exact h.saved p hp

theorem Checked.update {u : ShaperUpdate (Partial ℝ)} (h : s.Checked) (hu : s.update u = .ok s') : s'.Checked := by
  obtain ⟨_, hcheck, hu⟩ := bind_eq_ok.1 hu
  cases hu
  obtain ⟨hfreq, hdamping⟩ := ShaperUpdate.check_eq_ok hcheck
  -- what the update does not give is taken from what has been put aside, or from what is in use
  have hbase : (s.saved.getD s.params).Allowed := by
    cases hs : s.saved with
    | none => exact h.params
    | some p => exact h.saved p hs
  refine ⟨h.axis, h.freqs, h.dampings, ⟨?_, ?_⟩, nofun⟩
  · cases hgiven : u.freq with
    | none => exact hbase.freq
    | some f => exact hfreq f hgiven
  · cases hgiven : u.damping with
    | none => exact hbase.damping
    | some z => exact hdamping z hgiven

theorem Configured.checked (h : Configured s) : s.Checked := by
  induction h with
  | made h => exact checked_ofEntries? h
  | selected _ toolhead mode ih => exact ih.select toolhead mode
  | updated _ hu ih => exact ih.update hu
  | disabled _ ih => exact ih.disable
  | enabled _ ih => exact ih.enable

/-- A shaper that is put into a model is not refused; the pulses of its axis are at times that are there. -/
theorem Checked.applyTo_eq (h : s.Checked) (hone : s.isShaping = true → s.params.damping ≠ 1.0)
    (shaping : Shaping (Partial ℝ)) (axes : AxisSet) :
    ∃ shaped, s.applyTo shaping axes = (s, shaped, none) ∧ Shaping.Retuned s.axis shaping shaped := by
  have hshapes : (s.params.freq == (0.0 : Partial ℝ)) = false → s.params.damping ≠ 1.0 := by
    intro hfreq
    exact hone (by rw [isShaping_eq, hfreq]; rfl)
  obtain ⟨train, htrain, htimed⟩ := h.params.timed hshapes
  obtain ⟨i, hi, hletter, heq⟩ := applyTo_of_train h.axis htrain shaping axes
  refine ⟨_, heq, ⟨i, _, hletter, Shaping.pulses?_put_self hi, ?_⟩, fun j hj => Shaping.pulses?_put_ne ?_⟩
  · split
    · exact htimed
    · exact ⟨[], rfl, List.Pairwise.nil⟩
  · rintro rfl
    exact hj hletter

/-- Whatever frequency above zero and damping ratio are accepted, but for a ratio of one, the impulses of every kind
are usable. A shaper that has come of accepted settings goes into every model: unless it shapes with a ratio of one,
it is not refused, and its pulses are at times that are there. -/
theorem shaping_usable (kind : ShaperKind) (freq damping : Partial ℝ) (s : AxisShaper (Partial ℝ))
    (shaping : Shaping (Partial ℝ)) (axes : AxisSet) :
    (0.0 < freq → checkDamping damping = .ok () → damping ≠ 1.0 → Usable (kind.impulses freq damping)) ∧
    (s.Configured → (s.isShaping = true → s.params.damping ≠ 1.0) →
      ∃ shaped, s.applyTo shaping axes = (s, shaped, none) ∧ Shaping.Retuned s.axis shaping shaped) :=
  ⟨kind.usable_of_check, fun h hone => h.checked.applyTo_eq hone shaping axes⟩

/-- An axis with one entry for each of two toolheads. -/
noncomputable def twoTuned : AxisShaper (Partial ℝ) where
  axis := 'x'
  kinds := ⟨.zv, [.twoHumpEi]⟩
  freqs := ⟨number 50, [number 40]⟩
  dampings := ⟨number 0, [number 0.1]⟩
  toolhead := 0
  mode := .primary
  params := ⟨.zv, number 50, number 0⟩
  saved := none

theorem ofEntries?_twoTuned :
    ofEntries? 'x' [.zv, .twoHumpEi] [number 50, number 40] [number 0, number 0.1] = .ok twoTuned := by
  have hfreqs : [number (50 : ℝ), number 40].forM checkFreq = .ok () :=
    bind_eq_ok.2 ⟨(), checkFreq_real (by norm_num), bind_eq_ok.2 ⟨(), checkFreq_real (by norm_num), rfl⟩⟩
  have hdampings : [number (0 : ℝ), number 0.1].forM checkDamping = .ok () :=
    bind_eq_ok.2 ⟨(), checkDamping_real (by norm_num) (by norm_num),
      bind_eq_ok.2 ⟨(), checkDamping_real (by norm_num) (by norm_num), rfl⟩⟩
  unfold ofEntries?
  rw [if_neg (by decide)]
  exact bind_eq_ok.2 ⟨(), hfreqs, bind_eq_ok.2 ⟨(), hdampings, rfl⟩⟩

theorem shaping_usable_twoTuned : Usable (ShaperKind.twoHumpEi.impulses (number 40) (number 0.1)) ∧
    (twoTuned.select 1 .primary).Configured ∧
    ∃ shaped, (twoTuned.select 1 .primary).applyTo Shaping.off (.single .x) =
      (twoTuned.select 1 .primary, shaped, none) ∧ Shaping.Retuned 'x' Shaping.off shaped := by
  have hone : number (0.1 : ℝ) ≠ 1.0 := by
    rw [number_one, Ne, number.injEq]
    norm_num
  have hconfigured : (twoTuned.select 1 .primary).Configured := .selected (.made ofEntries?_twoTuned) 1 .primary
  have hfreq : (0.0 : Partial ℝ) < number 40 := by
    rw [number_zero, number_lt]
    norm_num
  obtain ⟨husable, hfits⟩ := shaping_usable .twoHumpEi (number 40) (number 0.1) (twoTuned.select 1 .primary) Shaping.off
    (.single .x)
  exact ⟨husable hfreq (checkDamping_real (by norm_num) (by norm_num)) hone, hconfigured,
    hfits hconfigured fun _ => hone⟩

/-- A damping ratio of one is accepted, but the period is divided by zero. -/
theorem not_shaping_usable : (0.0 : Partial ℝ) < number 50 ∧ checkDamping (number (1 : ℝ)) = .ok () ∧
    (ShaperKind.zv.impulses (number (50 : ℝ)) (number 1)).2 = [number 0, missing] ∧
      ¬ Usable (ShaperKind.zv.impulses (number 50) (number 1)) := by
  have htimes : (ShaperKind.zv.impulses (number (50 : ℝ)) (number 1)).2 = [number 0, missing] := by
    have hroot : Scalar.sqrt (1.0 - number 1 * number 1) = number (0 : ℝ) := by
      rw [number_one, number_mul, number_sub, mul_one, sub_self, number_sqrt le_rfl]
      exact congrArg number Real.sqrt_zero
    have hperiod : 1.0 / (number (50 : ℝ) * Scalar.sqrt (1.0 - number 1 * number 1)) = missing := by
      rw [hroot, number_mul, mul_zero, number_one, number_div_zero]
    simp only [ShaperKind.impulses, hperiod]
    exact congrArg₂ List.cons number_zero rfl
  refine ⟨?_, checkDamping_real zero_le_one le_rfl, htimes, fun h => ?_⟩
  · rw [number_zero, number_lt]
    norm_num
  · obtain ⟨times, heq, -⟩ := h.times
    have hmem : missing ∈ times.map number := by
      rw [← heq, htimes]
      simp
    obtain ⟨x, -, hx⟩ := List.mem_map.1 hmem
    cases hx

end AxisShaper

end PrinterMotion
