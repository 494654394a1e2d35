/-
The distance of one step, of a drive whose settings are positive. It is finite, and it is not lost in rounding
unless the rotation distance is next to the smallest number there is: the steps of one rotation are fewer than two
to the power of 64.
-/
import PrinterMotion.Config.Sections
import PrinterMotion.Proofs.Rounding

open Float.Model

namespace PrinterMotion

open Binary64

/-- A drive with positive settings. -/
structure Drive.Sound (d : Drive) : Prop where
  finite : d.rotationDistance.isFinite = true
  distance : 0.0 < d.rotationDistance
  microsteps : d.microsteps ≠ 0
  fullSteps : d.fullSteps ≠ 0

/-- A distance that a stepper with the drive can go by. -/
structure Drive.Steps (d : Drive) (dist : Float) : Prop where
  finite : dist.isFinite = true
  nonneg : 0.0 ≤ dist
  pos : 1e-304 ≤ d.rotationDistance → 0.0 < dist

namespace Drive.Sound

variable {d : Drive} (h : d.Sound)

include h

/-- The steps of a rotation. -/
theorem amount_counts : ∃ p, Amount (Scalar.ofNat d.fullSteps.toNat * Scalar.ofNat d.microsteps.toNat) p ∧
    1 ≤ p ∧ p ≤ 2 ^ 64 := by
  have hcount : ∀ n : UInt32, n ≠ 0 → 1 ≤ n.toNat ∧ n.toNat < 2 ^ 32 := fun n hn =>
    ⟨Nat.pos_of_ne_zero fun h0 => hn (UInt32.toNat_inj.1 h0), n.toNat_lt⟩
  obtain ⟨hfull, hfull'⟩ := hcount _ h.fullSteps
  obtain ⟨hmicro, hmicro'⟩ := hcount _ h.microsteps
  have hlow : 1 ≤ d.fullSteps.toNat * d.microsteps.toNat := Nat.mul_pos hfull hmicro
  have hhigh : d.fullSteps.toNat * d.microsteps.toNat ≤ 2 ^ 64 :=
    (Nat.mul_le_mul hfull'.le hmicro'.le).trans (by decide)
  have hlow' : (1 : ℚ) ≤ d.fullSteps.toNat * d.microsteps.toNat := by exact_mod_cast hlow
  have hhigh' : (d.fullSteps.toNat * d.microsteps.toNat : ℚ) ≤ 2 ^ (64 : ℤ) := by exact_mod_cast hhigh
  have hrep : Representable (2 ^ (64 : ℤ)) := representable_zpow (by decide)
  obtain ⟨p, hp, hround⟩ := (amount_ofNat hfull (hfull'.trans (by decide))).mul
    (amount_ofNat hmicro (hmicro'.trans (by decide))) hrep hhigh'
    (two_zpow_lt_top (by decide))
  exact ⟨p, hp, hround.ge representable_one hlow', by simpa using hround.le hrep hhigh'⟩

omit h in
theorem le_of_amount {x : ℚ} (hx : Amount d.rotationDistance x) (hle : 1e-304 ≤ d.rotationDistance) :
    2 ^ (-1010 : ℤ) ≤ x := by
  have hbound : Amount 1e-304 ((4941461262385513 : ℕ) * 2 ^ (-1062 : ℤ)) := amount_of_standing (by decide +kernel)
  calc (2 : ℚ) ^ (-1010 : ℤ) = 2 ^ 52 * 2 ^ (-1062 : ℤ) := by
        rw [← two_zpow_add]
        norm_num
    _ ≤ (4941461262385513 : ℕ) * 2 ^ (-1062 : ℤ) := by
        gcongr
        norm_num
    _ ≤ x := hbound.mono hx hle

omit h in
/-- A part of a rotation that is not too small is a number of the format up to a factor of two. -/
theorem le_of_rounds {x p z : ℚ} (hx : 2 ^ (-1010 : ℤ) ≤ x) (hlow : 0 < p) (hhigh : p ≤ 2 ^ 64)
    (hround : Rounds (x / p) z) : 2 ^ (-65 : ℤ) * x ≤ z := by
  have hpos : 0 < x := (zpow_pos two_pos _).trans_le hx
  -- The power of two below the rotation distance, and from it one below the part.
  obtain ⟨k, hk, hk'⟩ : ∃ k : ℤ, 2 ^ k ≤ x ∧ x < 2 ^ (k + 1) := exists_mem_Ico_zpow hpos one_lt_two
  have hleast : -1010 < k + 1 := (zpow_lt_zpow_iff_right₀ one_lt_two).1 (hx.trans_lt hk')
  have hpart : 2 ^ (k - 64) ≤ x / p := by
    rw [le_div_iff₀ hlow]
    calc (2 : ℚ) ^ (k - 64) * p ≤ 2 ^ (k - 64) * 2 ^ 64 := by gcongr
      _ = 2 ^ k := by
        rw [mul_comm, ← two_zpow_add]
        simp
      _ ≤ x := hk
  calc 2 ^ (-65 : ℤ) * x ≤ 2 ^ (-65 : ℤ) * 2 ^ (k + 1) := by gcongr
    _ = 2 ^ (k - 64) := by
      rw [← zpow_add₀ two_ne_zero]
      congr 1
      omega
    _ ≤ z := hround.ge (representable_zpow (by omega)) hpart

theorem amount_stepDistance : ∃ x z, Amount d.rotationDistance x ∧ 0 < x ∧ Amount d.stepDistance z ∧ z ≤ x ∧
    (1e-304 ≤ d.rotationDistance → 2 ^ (-65 : ℤ) * x ≤ z) := by
  obtain ⟨x, hx⟩ := exists_amount h.finite (Scalar.Lawful.le_of_lt h.distance)
  obtain ⟨p, hp, hlow, hhigh⟩ := h.amount_counts
  have hrep : Representable x := Value.representable hx
  have hpart : x / p ≤ x := div_le_self (Value.nonneg hx) hlow
  have hp0 : 0 < p := one_pos.trans_le hlow
  obtain ⟨z, hz, hround⟩ := hx.div hp hp0 hrep hpart hx.lt_top
  exact ⟨x, z, hx, hx.zero_lt_iff.1 h.distance, hz, hround.le hrep hpart,
    fun hle => le_of_rounds (le_of_amount hx hle) hp0 hhigh hround⟩

theorem steps_stepDistance : d.Steps d.stepDistance := by
  obtain ⟨x, z, -, hpos, hz, -, hlarge⟩ := h.amount_stepDistance
  refine ⟨hz.isFinite, hz.zero_le, fun hle => hz.zero_lt_iff.2 ((mul_pos ?_ hpos).trans_le (hlarge hle))⟩
  exact zpow_pos two_pos _

/-- A rotation distance next to the smallest number there is. -/
example : Scalar.isFinite (1e-323 : Float) = true ∧ 0.0 < (1e-323 : Float) ∧
    ¬ 0.0 < ({ Drive.default with rotationDistance := 1e-323 } : Drive).stepDistance := by decide +kernel

/-- The angle of a step is a part of a full circle. -/
theorem steps_radians : d.Steps (d.stepDistance / d.rotationDistance * (2.0 * Scalar.pi)) := by
  obtain ⟨x, z, hx, hpos, hz, hle, hlarge⟩ := h.amount_stepDistance
  have hcircle : Amount (2.0 * Scalar.pi) ((7074237752028440 : ℕ) * 2 ^ (-50 : ℤ)) :=
    amount_of_standing (by decide +kernel)
  generalize hc : (((7074237752028440 : ℕ) * 2 ^ (-50 : ℤ) : ℚ)) = c at hcircle
  have hc1 : 1 ≤ c := by
    rw [← hc]
    norm_num
  have hc8 : c ≤ 2 ^ (3 : ℤ) := by
    rw [← hc]
    norm_num
  have hpart : z / x ≤ 1 := (div_le_one hpos).2 hle
  obtain ⟨r, hr, hround⟩ := hz.div hx hpos representable_one hpart one_lt_top
  have hr0 : 0 ≤ r := Value.nonneg hr
  have hangle : r * c ≤ 2 ^ (3 : ℤ) :=
    (mul_le_of_le_one_left (one_pos.le.trans hc1) (hround.le representable_one hpart)).trans hc8
  obtain ⟨w, hw, hround'⟩ := hr.mul hcircle (representable_zpow (by decide)) hangle (two_zpow_lt_top (by decide))
  refine ⟨hw.isFinite, hw.zero_le, fun hdist => hw.zero_lt_iff.2 ?_⟩
  have hrep : Representable (2 ^ (-65 : ℤ)) := representable_zpow (by decide)
  have hlow : 2 ^ (-65 : ℤ) ≤ r := hround.ge hrep ((le_div_iff₀ hpos).2 (hlarge hdist))
  calc 0 < 2 ^ (-65 : ℤ) := zpow_pos two_pos _
    _ ≤ w := hround'.ge hrep (hlow.trans (le_mul_of_one_le_right hr0 hc1))

end Drive.Sound

end PrinterMotion
