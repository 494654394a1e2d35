/-
The impulses of the shaper kinds. Each kind has as many amplitudes as times, and no more than a pulse train
holds. Over the reals their amplitudes have a positive sum, whatever the frequency and the damping ratio, so a
pulse train can be made of them.
-/
import PrinterMotion.Proofs.Exact
import PrinterMotion.Shaping.AxisShaper

namespace PrinterMotion

namespace ShaperKind

theorem length_impulses {α : Type} [Scalar α] (kind : ShaperKind) (freq damping : α) :
    (kind.impulses freq damping).2.length = (kind.impulses freq damping).1.length ∧
      (kind.impulses freq damping).1.length ≤ PulseTrain.maxPulses := by
  cases kind <;> simp [impulses, PulseTrain.maxPulses]

/-- The cube root on which the amplitudes for two humps rest. -/
theorem twoHump_root {v x : ℝ} (hv : v = 0.0025) (hx : x = (v * (√(1.0 - v) + 1.0)) ^ (1.0 / 3.0 : ℝ)) :
    0.1 < x ∧ x ≤ 1 := by
  norm_num1 at hx
  have hroot := Real.sqrt_nonneg (1 - v)
  have hroot' : √(1 - v) ≤ 1 := by
    rw [Real.sqrt_le_one]
    norm_num [hv]
  have hbase : 0.0025 ≤ v * (√(1 - v) + 1) := by nlinarith
  have hcube : x ^ 3 = v * (√(1 - v) + 1) := by
    rw [hx, ← Real.rpow_natCast, ← Real.rpow_mul (by linarith)]
    norm_num
  have hpos : 0 ≤ x := hx ▸ Real.rpow_nonneg (by linarith) _
  constructor
  · by_contra hsmall
    have := pow_le_pow_left₀ hpos (not_lt.1 hsmall) 3
    norm_num at this
    linarith
  · rw [hx]
    exact Real.rpow_le_one (by linarith) (by nlinarith) (by norm_num)

/-- Over the reals all amplitudes are positive. -/
theorem amplitudes_pos (kind : ShaperKind) (freq damping : ℝ) : ∀ a ∈ (kind.impulses freq damping).1, 0 < a := by
  have hexp : ∀ x : ℝ, 0 < Scalar.exp x := Real.exp_pos
  have hsqrt : ∀ x : ℝ, Scalar.sqrt x = √x := fun _ => rfl
  have hpow : ∀ x y : ℝ, Scalar.pow x y = x ^ y := fun _ _ => rfl
  have hk := hexp (-damping * Scalar.pi / √(1.0 - damping * damping))
  cases kind <;> simp only [impulses, vibrationReduction, hsqrt, hpow, List.mem_cons, List.not_mem_nil, or_false,
    forall_eq_or_imp, forall_eq]
  all_goals generalize Scalar.exp (-damping * Scalar.pi / √(1.0 - damping * damping)) = k at hk ⊢
  case zv => exact ⟨by norm_num, hk⟩
  case mzv =>
    have hk' := hexp (-0.75 * damping * Scalar.pi / √(1.0 - damping * damping))
    generalize Scalar.exp (-0.75 * damping * Scalar.pi / √(1.0 - damping * damping)) = k' at hk' ⊢
    have hroot : (1 : ℝ) < √2.0 := by
      rw [Real.lt_sqrt] <;> norm_num
    have hfirst : 0 < 1.0 - 1.0 / √(2.0 : ℝ) := by
      rw [sub_pos, div_lt_iff₀ (by linarith)]
      linarith
    have hsecond : 0 < √(2.0 : ℝ) - 1.0 := by linarith
    exact ⟨hfirst, by positivity, by positivity⟩
  case zvd => exact ⟨by norm_num, by positivity, by positivity⟩
  case ei =>
    have hfirst : (0 : ℝ) < 0.25 * (1.0 + 1.0 / 20.0) := by norm_num
    have hsecond : (0 : ℝ) < 0.5 * (1.0 - 1.0 / 20.0) := by norm_num
    exact ⟨hfirst, by positivity, by positivity⟩
  case twoHumpEi =>
    obtain ⟨hlow, hhigh⟩ := twoHump_root (v := 1.0 / 20.0 * (1.0 / 20.0)) (by norm_num) rfl
    generalize (1.0 / 20.0 * (1.0 / 20.0) * (√(1.0 - 1.0 / 20.0 * (1.0 / 20.0)) + 1.0) : ℝ) ^ (1.0 / 3.0 : ℝ) = x
      at hlow hhigh ⊢
    have hx : 0 < x := by linarith
    have hfirst : 0 < (3.0 * x * x + 2.0 * x + 3.0 * (1.0 / 20.0 * (1.0 / 20.0))) / (16.0 * x) := by positivity
    have hsecond : 0 < 0.5 - (3.0 * x * x + 2.0 * x + 3.0 * (1.0 / 20.0 * (1.0 / 20.0))) / (16.0 * x) := by
      rw [sub_pos, div_lt_iff₀ (by linarith)]
      nlinarith
    exact ⟨hfirst, by positivity, by positivity, by positivity⟩
  case threeHumpEi =>
    have hroot : √(2.0 * (1.0 / 20.0 + 1.0) * (1.0 / 20.0) : ℝ) < 0.33 := by
      rw [Real.sqrt_lt (by norm_num) (by norm_num)]
      norm_num
    have hnonneg := Real.sqrt_nonneg (2.0 * (1.0 / 20.0 + 1.0) * (1.0 / 20.0) : ℝ)
    generalize √(2.0 * (1.0 / 20.0 + 1.0) * (1.0 / 20.0) : ℝ) = x at hroot hnonneg ⊢
    have hfirst : 0 < 0.0625 * (1.0 + 3.0 * (1.0 / 20.0) + 2.0 * x) := by positivity
    have hsecond : (0 : ℝ) < 0.25 * (1.0 - 1.0 / 20.0) := by norm_num
    have hthird : 0 < 0.5 * (1.0 + 1.0 / 20.0) - 2.0 * (0.0625 * (1.0 + 3.0 * (1.0 / 20.0) + 2.0 * x)) := by linarith
    exact ⟨hfirst, by positivity, by positivity, by positivity, by positivity⟩

end ShaperKind

theorem sum_pos {l : List ℝ} (hne : l ≠ []) (h : ∀ a ∈ l, 0 < a) : 0 < Scalar.sum l := by
  rw [Scalar.sum_eq]
  exact List.sum_pos l h hne

/-- Over the reals a pulse train can be made of the impulses of any parameters. -/
theorem ShaperParams.ofShaper_impulses (p : ShaperParams ℝ) :
    ∃ train, PulseTrain.ofShaper p.impulses.1.length p.impulses.1 p.impulses.2 = .ok train := by
  unfold ShaperParams.impulses
  split
  · exact ⟨[], rfl⟩
  · obtain ⟨hlength, hmax⟩ := p.kind.length_impulses p.freq p.damping
    have hpos := p.kind.amplitudes_pos p.freq p.damping
    generalize p.kind.impulses p.freq p.damping = impulses at hlength hmax hpos ⊢
    unfold PulseTrain.ofShaper
    rw [if_neg (not_lt.2 hmax), if_neg (by simp [hlength])]
    split
    · exact ⟨_, rfl⟩
    · rename_i hne
      have htotal := sum_pos (List.ne_nil_of_length_pos (Nat.pos_of_ne_zero hne)) hpos
      rw [if_neg (by simp [htotal.ne'])]
      exact ⟨_, rfl⟩

end PrinterMotion
