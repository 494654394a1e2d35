/-
Where the results of binary64 arithmetic lie. A result is rounded to one of the two numbers of the format next to
the exact one, and to the exact one if that is a number of the format. So a number of the format that bounds an
exact result bounds what it is rounded to. That is shown here for products and quotients of numbers that are not
negative, for which all that is rounded to a number is bounded by numbers.
-/
import PrinterMotion.Proofs.Binary64

open Float.Model Float.Model.UnpackedFloat

namespace PrinterMotion.Binary64

/-! ## Cut digits -/

/-- What the bits of a mantissa say of a number: the mantissa is its whole part, and no bit is set if there is no
other part. -/
structure Approximates (em : ExtendedMantissa) (y : ℚ) : Prop where
  le : em.mantissa ≤ y
  lt : y < em.mantissa + 1
  clear : y = em.mantissa → em.roundBit = false ∧ em.stickyBit = false

variable {em : ExtendedMantissa} {y : ℚ} {c : ℕ}

theorem mantissa_ofMantissaAndAccuracy (m : ℕ) (acc : Accuracy) :
    (ExtendedMantissa.ofMantissaAndAccuracy m acc).mantissa = m := by
  rcases acc with _ | o
  · rfl
  · cases o <;> rfl

theorem approximates_exact (m : ℕ) : Approximates (.ofMantissaAndAccuracy m .exact) m :=
  ⟨le_rfl, lt_add_one _, fun _ => ⟨rfl, rfl⟩⟩

theorem Approximates.shiftRightOne (h : Approximates em y) : Approximates em.shiftRightOne (y / 2) := by
  obtain ⟨m, r, s⟩ := em
  obtain ⟨hle, hlt, hclear⟩ := h
  dsimp only at hle hlt hclear
  have hsplit : (2 * (m / 2) + m % 2 : ℕ) = m := Nat.div_add_mod m 2
  have hcast : (2 : ℚ) * ↑(m / 2) + ↑(m % 2) = m := by exact_mod_cast hsplit
  have hmod : m % 2 = 0 ∨ m % 2 = 1 := Nat.mod_two_eq_zero_or_one m
  refine ⟨?_, ?_, fun hy => ?_⟩ <;> dsimp only [ExtendedMantissa.shiftRightOne] at *
  · have : (0 : ℚ) ≤ ↑(m % 2) := Nat.cast_nonneg _
    linarith
  · rcases hmod with hmod | hmod <;> rw [hmod] at hcast <;> push_cast at hcast <;> linarith
  · rcases hmod with hmod | hmod <;> rw [hmod] at hcast <;> push_cast at hcast
    · obtain ⟨rfl, rfl⟩ := hclear (by linarith)
      simp [hmod]
    · linarith

theorem Approximates.shiftRight (h : Approximates em y) (n : ℕ) : Approximates (em >>> n) (y / 2 ^ n) := by
  change Approximates (n.repeat ExtendedMantissa.shiftRightOne em) _
  induction n with
  | zero => simpa [Nat.repeat] using h
  | succ n ih =>
    rw [Nat.repeat, pow_succ, ← div_div]
    exact ih.shiftRightOne

/-- Rounding to a whole number does not pass another one. -/
theorem Approximates.rounded (h : Approximates em y) :
    (∀ c : ℕ, c ≤ y → c ≤ em.roundedMantissa) ∧ ∀ c : ℕ, y ≤ c → em.roundedMantissa ≤ c := by
  obtain ⟨m, r, s⟩ := em
  obtain ⟨hle, hlt, hclear⟩ := h
  dsimp only at hle hlt hclear
  have hnear : m ≤ ExtendedMantissa.roundedMantissa ⟨m, r, s⟩ ∧ ExtendedMantissa.roundedMantissa ⟨m, r, s⟩ ≤ m + 1 := by
    cases r <;> cases s <;>
      simp [ExtendedMantissa.roundedMantissa, ExtendedMantissa.accuracy, Accuracy.roundToNearestEven]
    omega
  refine ⟨fun c hc => ?_, fun c hc => ?_⟩
  · have hcm : (c : ℚ) < m + 1 := hc.trans_lt hlt
    have : c < m + 1 := by exact_mod_cast hcm
    omega
  · rcases hle.eq_or_lt with heq | hlt'
    · obtain ⟨rfl, rfl⟩ := hclear heq.symm
      have : m ≤ c := by exact_mod_cast hle.trans hc
      exact this
    · have hmc : (m : ℚ) < c := hlt'.trans_le hc
      have : m < c := by exact_mod_cast hmc
      omega

/-! ## Numbers of the format -/

/-- A mantissa and an exponent as the format keeps them: with all digits, or with the least exponent. -/
structure Canonical (m : ℕ) (e : ℤ) : Prop where
  lt : m < 2 ^ 53
  le : -1074 ≤ e
  full : 2 ^ 52 ≤ m ∨ e = -1074

/-- The number that is read from an unpacked one, if that is not negative. -/
inductive Value : UnpackedFloat → ℚ → Prop where
  | zero (s : Sign) : Value (.zero s) 0
  | finite {m : ℕ} {e : ℤ} (hm : 0 < m) (hc : Canonical m e) : Value (.finite .positive m e hm) (m * 2 ^ e)

/-- The numbers that the format has room for, were there no largest exponent. -/
def Representable (b : ℚ) : Prop := ∃ (c : ℕ) (f : ℤ), c ≤ 2 ^ 53 ∧ -1074 ≤ f ∧ b = c * 2 ^ f

theorem Value.nonneg {u : UnpackedFloat} {x : ℚ} (h : Value u x) : 0 ≤ x := by
  cases h <;> positivity

theorem Value.representable {u : UnpackedFloat} {x : ℚ} (h : Value u x) : Representable x := by
  cases h with
  | zero s => exact ⟨0, 0, by decide, by decide, by simp⟩
  | @finite m e hm hc => exact ⟨m, e, hc.lt.le, hc.le, rfl⟩

theorem representable_zpow {f : ℤ} (hf : -1074 ≤ f) : Representable (2 ^ f) := ⟨1, f, by decide, hf, by simp⟩

theorem representable_one : Representable 1 := ⟨1, 0, by decide, by decide, by simp⟩

theorem targetExponent_eq (t : ℤ) : Format.binary64.targetExponent t = max (t - 53) (-1074) := rfl

theorem two_zpow_add (k : ℕ) (e : ℤ) : (2 : ℚ) ^ (e + k) = 2 ^ k * 2 ^ e := by
  rw [zpow_add₀ two_ne_zero, zpow_natCast, mul_comm]

/-! ## Rounding -/

/-- A mantissa that fits is not shifted any more. -/
theorem shift_fits {n : ℕ} {e : ℤ} (hn : n < 2 ^ 53) (he : -1074 ≤ e) :
    shiftToTargetExponent .binary64 n e .exact = (⟨n, false, false⟩, e) := by
  have hlog : n.log2 ≤ 52 := by
    rcases Nat.eq_zero_or_pos n with rfl | hpos
    · simp
    · have := (Nat.log2_lt hpos.ne').2 hn
      omega
  have hshift : (Format.binary64.targetExponent (totalExponent n e) - e).toNat = 0 := by
    rw [targetExponent_eq, totalExponent]
    omega
  simp only [shiftToTargetExponent, shiftToExponent, hshift]
  simp [ExtendedMantissa.ofMantissaAndAccuracy, HShiftRight.hShiftRight, Nat.repeat]

/-- A mantissa that has grown by a digit is shifted once. -/
theorem shift_carry {e : ℤ} (he : -1074 ≤ e) :
    shiftToTargetExponent .binary64 (2 ^ 53) e .exact = (⟨2 ^ 52, false, false⟩, e + 1) := by
  have hshift : (Format.binary64.targetExponent (totalExponent (2 ^ 53) e) - e).toNat = 1 := by
    rw [targetExponent_eq, totalExponent, Nat.log2_two_pow]
    omega
  simp only [shiftToTargetExponent, shiftToExponent, hshift]
  rfl

/-- A mantissa that is rounded to `n` at an exponent gives the number that these stand for. -/
theorem value_of_rounded {m n : ℕ} {e f : ℤ} {acc : Accuracy} {em : ExtendedMantissa}
    (hshift : shiftToTargetExponent .binary64 m e acc = (em, f)) (hround : em.roundedMantissa = n) (hn : n ≤ 2 ^ 53)
    (hf : -1074 ≤ f) (hfull : 2 ^ 52 ≤ n ∨ f = -1074) :
    Value (roundWithAccuracy .binary64 .positive m e acc) (n * 2 ^ f) := by
  unfold roundWithAccuracy
  simp only [hshift, hround]
  rcases hn.eq_or_lt with rfl | hlt
  · simp only [shift_carry hf]
    have hc : Canonical (2 ^ 52) (f + 1) := ⟨by decide, by omega, .inl le_rfl⟩
    have hvalue : ((2 ^ 53 : ℕ) : ℚ) * 2 ^ f = (2 ^ 52 : ℕ) * 2 ^ (f + 1) := by
      rw [zpow_add_one₀ two_ne_zero]
      push_cast
      ring
    rw [hvalue, dif_neg (by decide)]
    exact .finite (by decide) hc
  · simp only [shift_fits hlt hf]
    split
    · rename_i hzero
      rw [hzero, Nat.cast_zero, zero_mul]
      exact .zero .positive
    · exact .finite _ ⟨hlt, hf, hfull⟩

/-- A number of the format is a multiple of a unit of the format, or not larger than all numbers with all digits in
that unit. -/
theorem Representable.multiple_or_le {b : ℚ} (hb : Representable b) (f : ℤ) :
    (∃ c : ℕ, b = c * 2 ^ f) ∨ -1074 < f ∧ b ≤ 2 ^ 52 * 2 ^ f := by
  obtain ⟨c, g, hc, hg, rfl⟩ := hb
  rcases le_or_gt f g with hle | hlt
  · refine .inl ⟨c * 2 ^ (g - f).toNat, ?_⟩
    have hsplit : (2 : ℚ) ^ g = 2 ^ (g - f).toNat * 2 ^ f := by
      rw [← two_zpow_add]
      congr 1
      omega
    rw [hsplit]
    push_cast
    ring
  · refine .inr ⟨by omega, ?_⟩
    have hunit : (2 : ℚ) * 2 ^ g ≤ 2 ^ f := by
      rw [← zpow_one_add₀ two_ne_zero]
      exact zpow_le_zpow_right₀ one_le_two (by omega)
    have hcast : (c : ℚ) ≤ 2 ^ 53 := by exact_mod_cast hc
    have hpos : (0 : ℚ) < 2 ^ g := by positivity
    nlinarith

/-- A number that is shifted to its unit has all digits there, unless that is the least unit. -/
theorem shifted_spec {x : ℚ} {m : ℕ} {e : ℤ} {acc : Accuracy}
    (h : Approximates (.ofMantissaAndAccuracy m acc) (x / 2 ^ e))
    (he : e ≤ Format.binary64.targetExponent (totalExponent m e)) :
    ∃ em f, shiftToTargetExponent .binary64 m e acc = (em, f) ∧ Approximates em (x / 2 ^ f) ∧ -1074 ≤ f ∧
      (2 ^ 52 ≤ x / 2 ^ f ∨ f = -1074) ∧ x / 2 ^ f ≤ 2 ^ 53 := by
  obtain ⟨k, hk⟩ : ∃ k, (Format.binary64.targetExponent (totalExponent m e) - e).toNat = k := ⟨_, rfl⟩
  have hunit : x / 2 ^ e / 2 ^ k = x / 2 ^ (e + k) := by
    rw [two_zpow_add, div_div, mul_comm]
  have happrox := h.shiftRight k
  have hle := h.le
  have hlt := h.lt
  rw [hunit] at happrox
  rw [mantissa_ofMantissaAndAccuracy] at hle hlt
  refine ⟨_, e + k, by rw [shiftToTargetExponent, shiftToExponent, hk], happrox, ?_⟩
  rw [targetExponent_eq, totalExponent] at hk he
  refine ⟨by omega, ?_, ?_⟩
  · rcases eq_or_ne (e + (k : ℤ)) (-1074) with heq | hne
    · exact .inr heq
    · have hdigits : m.log2 = 52 + k := by omega
      have hm : m ≠ 0 := by
        rintro rfl
        rw [Nat.log2_zero] at hdigits
        omega
      have hself := Nat.log2_self_le hm
      rw [hdigits, pow_add] at hself
      have hcast : (2 : ℚ) ^ 52 * 2 ^ k ≤ m := by exact_mod_cast hself
      left
      rw [← hunit, le_div_iff₀ (by positivity)]
      exact hcast.trans hle
  · have hself := Nat.lt_log2_self (n := m)
    have hgrow : 2 ^ (m.log2 + 1) ≤ 2 ^ 53 * 2 ^ k := by
      rw [← pow_add]
      exact Nat.pow_le_pow_right (by decide) (by omega)
    have hcast : (m : ℚ) + 1 ≤ 2 ^ 53 * 2 ^ k := by exact_mod_cast hself.trans_le hgrow
    rw [← hunit, div_le_iff₀ (by positivity)]
    exact hlt.le.trans hcast

/-- A number that may be what another is rounded to: no number of the format lies between. -/
structure Rounds (x z : ℚ) : Prop where
  le {b : ℚ} : Representable b → x ≤ b → z ≤ b
  ge {b : ℚ} : Representable b → b ≤ x → b ≤ z

theorem Rounds.refl (x : ℚ) : Rounds x x := ⟨fun _ => id, fun _ => id⟩

theorem Rounds.eq {x z : ℚ} (h : Rounds x z) (hx : Representable x) : z = x :=
  (h.le hx le_rfl).antisymm (h.ge hx le_rfl)

/-- Rounding is to a number that is next, if digits are only dropped. -/
theorem exists_rounds {x : ℚ} {m : ℕ} {e : ℤ} {acc : Accuracy}
    (h : Approximates (.ofMantissaAndAccuracy m acc) (x / 2 ^ e))
    (he : e ≤ Format.binary64.targetExponent (totalExponent m e)) :
    ∃ z, Value (roundWithAccuracy .binary64 .positive m e acc) z ∧ Rounds x z := by
  obtain ⟨em, f, hshift, happrox, hf, hfull, hbound⟩ := shifted_spec h he
  obtain ⟨hlow, hhigh⟩ := happrox.rounded
  have hpos : (0 : ℚ) < 2 ^ f := by positivity
  have hround : em.roundedMantissa ≤ 2 ^ 53 := hhigh (2 ^ 53) (by exact_mod_cast hbound)
  have hround' : 2 ^ 52 ≤ em.roundedMantissa ∨ f = -1074 :=
    hfull.imp_left fun hx => hlow (2 ^ 52) (by exact_mod_cast hx)
  have hscale : ∀ {r s : ℕ}, r ≤ s → (r : ℚ) * 2 ^ f ≤ s * 2 ^ f := fun hrs =>
    mul_le_mul_of_nonneg_right (Nat.cast_le.2 hrs) hpos.le
  refine ⟨_, value_of_rounded hshift rfl hround hf hround', fun {b} hb hx => ?_, fun {b} hb hx => ?_⟩
  · rcases hb.multiple_or_le f with ⟨c, rfl⟩ | ⟨hlt, hb⟩
    · exact hscale (hhigh c ((div_le_iff₀ hpos).2 hx))
    · -- The number has all digits and is not larger than `b`, so it is the least with all digits.
      have hx' : 2 ^ 52 * 2 ^ f ≤ x := (le_div_iff₀ hpos).1 (hfull.resolve_right (by omega))
      have hc : em.roundedMantissa ≤ 2 ^ 52 := hhigh _ (by
        rw [div_le_iff₀ hpos]
        exact_mod_cast hx.trans hb)
      refine (hscale hc).trans ?_
      exact_mod_cast hx'.trans hx
  · rcases hb.multiple_or_le f with ⟨c, rfl⟩ | ⟨hlt, hb⟩
    · exact hscale (hlow c ((le_div_iff₀ hpos).2 hx))
    · have hc := hscale (hround'.resolve_right (by omega))
      refine hb.trans ?_
      exact_mod_cast hc

/-! ## Packing -/

theorem toNat_leading (low : BitVec 52) : (1#1 ++ low).toNat = 2 ^ 52 + low.toNat := by
  rw [BitVec.toNat_append, ← Nat.shiftLeft_add_eq_or_of_lt low.isLt]
  rfl

theorem finite_congr {s : Sign} {m n : ℕ} {e f : ℤ} {hm : 0 < m} {hn : 0 < n} (h : m = n) (h' : e = f) :
    UnpackedFloat.finite s m e hm = .finite s n f hn := by
  subst h h'
  rfl

/-- The exponent of a number that is not too large. -/
theorem Canonical.exponent_le {m : ℕ} {e : ℤ} (hc : Canonical m e) (hlt : (m : ℚ) * 2 ^ e < 2 ^ 1024) : e ≤ 971 := by
  rcases hc.full with hfull | rfl
  · by_contra hbig
    have hcast : (2 : ℚ) ^ 52 ≤ m := by exact_mod_cast hfull
    have hexp : (2 : ℚ) ^ (972 : ℤ) ≤ 2 ^ e := zpow_le_zpow_right₀ one_le_two (by omega)
    have hprod : (2 : ℚ) ^ 52 * 2 ^ (972 : ℤ) ≤ m * 2 ^ e := by gcongr
    have htop : (2 : ℚ) ^ 52 * 2 ^ (972 : ℤ) = 2 ^ 1024 := by
      rw [← two_zpow_add]
      norm_num
    rw [htop] at hprod
    exact absurd hlt (not_lt.2 hprod)
  · decide

theorem Canonical.lt_top {m : ℕ} {e : ℤ} (hc : Canonical m e) (hle : e ≤ 971) : (m : ℚ) * 2 ^ e < 2 ^ 1024 := by
  have hlt : (m : ℚ) < 2 ^ 53 := by exact_mod_cast hc.lt
  calc (m : ℚ) * 2 ^ e < 2 ^ 53 * 2 ^ e := by gcongr
    _ ≤ 2 ^ 53 * 2 ^ (971 : ℤ) := by gcongr; exact one_le_two
    _ = 2 ^ 1024 := by
      rw [← two_zpow_add]
      norm_num

variable {m : ℕ} {e : ℤ} (hm : 0 < m)

theorem pack_finite (hle : -1074 ≤ e) (hmax : e ≤ 971) : UnpackedFloat.pack .binary64 (.finite .positive m e hm) =
    if m.log2 + 1 = 53 then
      packComponents .binary64 .positive (BitVec.ofNat 11 (e + 1023 + 52).toNat) (BitVec.ofNat 52 m)
    else packComponents .binary64 .positive 0#11 (BitVec.ofNat 52 m) := by
  change (if 2 ^ 11 ≤ (e + 1023 + 52).toNat + 1 then _ else _) = _
  rw [if_neg (by omega)]
  rfl

/-- With all digits, the leading one is left out and put back. -/
theorem unpack_pack_full (hlow : 2 ^ 52 ≤ m) (hlt : m < 2 ^ 53) (hle : -1074 ≤ e) (hmax : e ≤ 971) :
    UnpackedFloat.unpack .binary64 (UnpackedFloat.pack .binary64 (.finite .positive m e hm)) =
      .finite .positive m e hm := by
  have hlog : m.log2 = 52 := (Nat.log2_eq_iff hm.ne').2 ⟨hlow, hlt⟩
  obtain ⟨n, hn⟩ : ∃ n, (e + 1023 + 52).toNat = n := ⟨_, rfl⟩
  have hones : BitVec.ofNat 11 n ≠ -1#11 := by
    rw [Ne, ← BitVec.toNat_inj, BitVec.toNat_ofNat]
    change ¬ n % 2 ^ 11 = 2047
    omega
  have hzeros : BitVec.ofNat 11 n ≠ 0#11 := by
    rw [Ne, ← BitVec.toNat_inj, BitVec.toNat_ofNat]
    change ¬ n % 2 ^ 11 = 0
    omega
  rw [pack_finite hm hle hmax, if_pos (by rw [hlog]), hn]
  unfold UnpackedFloat.unpack
  simp only [unpackMantissa_packComponents, unpackExponent_packComponents, unpackSign_packComponents,
    Sign.ofBitVec_toBitVec]
  rw [if_neg hones, if_neg hzeros]
  refine finite_congr ?_ ?_
  · rw [toNat_leading, BitVec.toNat_ofNat]
    omega
  change ((BitVec.ofNat 11 n).toNat : ℤ) - (1023 + 52) = e
  rw [BitVec.toNat_ofNat]
  omega

/-- With fewer digits, which only the least exponent has, they are all kept. -/
theorem unpack_pack_short (hlt : m < 2 ^ 52) :
    UnpackedFloat.unpack .binary64 (UnpackedFloat.pack .binary64 (.finite .positive m (-1074) hm)) =
      .finite .positive m (-1074) hm := by
  have hlog : m.log2 < 52 := (Nat.log2_lt hm.ne').2 hlt
  have hmod : m % 2 ^ 52 = m := Nat.mod_eq_of_lt hlt
  have hbits : BitVec.ofNat 52 m ≠ 0#52 := by
    rw [Ne, ← BitVec.toNat_inj, BitVec.toNat_ofNat, hmod]
    exact hm.ne'
  rw [pack_finite hm le_rfl (by decide), if_neg (by omega)]
  unfold UnpackedFloat.unpack
  simp only [unpackMantissa_packComponents, unpackExponent_packComponents, unpackSign_packComponents,
    Sign.ofBitVec_toBitVec]
  rw [if_neg (by decide), if_pos trivial, dif_neg hbits]
  refine finite_congr ?_ rfl
  rw [BitVec.toNat_ofNat, hmod]

/-- A number that is not too large is read back as it was. -/
theorem Value.unpack_pack {u : UnpackedFloat} {z : ℚ} (h : Value u z) (hz : z < 2 ^ 1024) :
    UnpackedFloat.unpack .binary64 (UnpackedFloat.pack .binary64 u) = u := by
  cases h with
  | zero s => exact unpack_packedZero
  | @finite m e hm hc =>
    have hmax := hc.exponent_le hz
    rcases le_or_gt (2 ^ 52) m with hfull | hshort
    · exact unpack_pack_full hm hfull hc.lt hc.le hmax
    · obtain rfl : e = -1074 := hc.full.resolve_left hshort.not_ge
      exact unpack_pack_short hm hshort

/-- What is read from bits is in the form that the format keeps. -/
theorem canonical_unpack {b : BitVec Format.binary64.numBits} {s : Sign}
    (h : UnpackedFloat.unpack .binary64 b = .finite s m e hm) : Canonical m e ∧ e ≤ 971 := by
  have hlow : (unpackMantissa b).toNat < 2 ^ 52 := (unpackMantissa b).isLt
  have hhigh : (unpackExponent b).toNat < 2 ^ 11 := (unpackExponent b).isLt
  have hbias : (Format.binary64.exponentBias : ℤ) = 1023 := rfl
  unfold UnpackedFloat.unpack at h
  dsimp only at h
  split_ifs at h with hones _ hzeros hbits
  · simp only [finite.injEq] at h
    obtain ⟨-, rfl, rfl⟩ := h
    rw [hzeros, hbias]
    exact ⟨⟨hlow.trans (by decide), by simp, .inr (by simp)⟩, by simp⟩
  · simp only [finite.injEq] at h
    obtain ⟨-, rfl, rfl⟩ := h
    have hzero : (unpackExponent b).toNat ≠ 0 := fun h0 => hzeros (BitVec.eq_of_toNat_eq h0)
    have hone : (unpackExponent b).toNat ≠ 2 ^ 11 - 1 := fun h1 => hones (BitVec.eq_of_toNat_eq h1)
    have hlead : (1#1 ++ unpackMantissa b).toNat = 2 ^ 52 + (unpackMantissa b).toNat := toNat_leading _
    rw [hlead, hbias]
    refine ⟨⟨by omega, ?_, .inl (Nat.le_add_right _ _)⟩, ?_⟩ <;> push_cast <;> omega

/-! ## Amounts -/

section Value
variable {u v : UnpackedFloat} {x y : ℚ} {p q : ℤ ×ₗ ℤ ×ₗ ℤ}

theorem Value.isFinite (h : Value u x) : u.isFinite = true := by
  cases h <;> rfl

theorem Value.half (h : Value u x) : Nonneg u := by
  cases h <;> trivial

/-- A larger exponent means a larger value, since all digits are there. -/
theorem Canonical.mono {m n : ℕ} {e f : ℤ} (hm : Canonical m e) (hn : Canonical n f) (h : e < f ∨ e = f ∧ m ≤ n) :
    (m : ℚ) * 2 ^ e ≤ n * 2 ^ f := by
  rcases h with hlt | ⟨rfl, hle⟩
  · have hfull : 2 ^ 52 ≤ n := hn.full.resolve_right (by have := hm.le; omega)
    have hunit : (2 : ℚ) * 2 ^ e ≤ 2 ^ f := by
      rw [← zpow_one_add₀ two_ne_zero]
      exact zpow_le_zpow_right₀ one_le_two (by omega)
    have hm' : (m : ℚ) ≤ 2 ^ 52 * 2 := by exact_mod_cast hm.lt.le
    have hn' : (2 : ℚ) ^ 52 ≤ n := by exact_mod_cast hfull
    calc (m : ℚ) * 2 ^ e ≤ 2 ^ 52 * 2 * 2 ^ e := by gcongr
      _ = 2 ^ 52 * (2 * 2 ^ e) := mul_assoc _ _ _
      _ ≤ n * 2 ^ f := by gcongr
  · gcongr

/-- What stands in front of another has the smaller value. -/
theorem Value.mono (hu : Value u x) (hv : Value v y) (hp : rank u = some p) (hq : rank v = some q) (h : p ≤ q) :
    x ≤ y := by
  cases hu with
  | zero => exact hv.nonneg
  | finite hm hc =>
    cases hp
    cases hv with
    | zero =>
      cases hq
      simp [Prod.Lex.toLex_le_toLex, Sign.apply] at h
    | finite hn hc' =>
      cases hq
      exact hc.mono hc' (by simpa [Prod.Lex.toLex_le_toLex, Sign.apply] using h)

theorem Value.pos_iff (hu : Value u x) (hp : rank u = some p) : toLex (0, toLex (0, 0)) < p ↔ 0 < x := by
  cases hu with
  | zero =>
    cases hp
    simp
  | @finite m e hm hc =>
    cases hp
    have hpos : (0 : ℚ) < m * 2 ^ e := by positivity
    simp [Prod.Lex.toLex_lt_toLex, Sign.apply, hpos]

theorem Value.rank (hu : Value u x) : ∃ p, Binary64.rank u = some p := by
  cases hu <;> exact ⟨_, rfl⟩

end Value

/-- A finite number that is not negative, and its value. -/
def Amount (a : Float) (x : ℚ) : Prop := Value a.toModel.unpack x

variable {a b : Float} {x y : ℚ}

theorem Amount.isFinite (h : Amount a x) : a.isFinite = true := Value.isFinite h

theorem Amount.zero_le (h : Amount a x) : 0.0 ≤ a := zero_le_iff_nonneg.2 (Value.half h)

theorem Amount.zero_lt_iff (h : Amount a x) : 0.0 < a ↔ 0 < x := by
  obtain ⟨p, hp⟩ := Value.rank h
  have hzero : standing 0.0 = some (toLex (0, toLex (0, 0))) := rfl
  rw [lt_iff_standing, hzero, show standing a = some p from hp]
  simpa using Value.pos_iff h hp

theorem Amount.mono (ha : Amount a x) (hb : Amount b y) (h : a ≤ b) : x ≤ y := by
  obtain ⟨p, hp, q, hq, hle⟩ := le_iff_standing.1 h
  exact Value.mono ha hb hp hq hle

theorem isNumber_of_isFinite (h : a.isFinite = true) : Scalar.isNumber a = true := by
  rw [isNumber_iff_standing]
  change a.toModel.unpack.isFinite = true at h
  unfold standing
  generalize a.toModel.unpack = u at h ⊢
  cases u with
  | notANumber | infinity => cases h
  | zero | finite => exact ⟨_, rfl⟩

theorem lt_of_not_le (ha : a.isFinite = true) (hb : b.isFinite = true) (h : ¬ a ≤ b) : b < a :=
  by_contra fun hlt => h (Scalar.Lawful.le_of_not_lt (isNumber_of_isFinite hb) (isNumber_of_isFinite ha) hlt)

theorem lt_trans {c : Float} (h : a < b) (h' : b < c) : a < c := by
  obtain ⟨x, hx, y, hy, hxy⟩ := lt_iff_standing.1 h
  obtain ⟨y', hy', z, hz, hyz⟩ := lt_iff_standing.1 h'
  obtain rfl := Option.mem_unique hy hy'
  exact lt_iff_standing.2 ⟨x, hx, z, hz, hxy.trans hyz⟩

/-- A finite number that is not negative is an amount. -/
theorem exists_amount (hfin : a.isFinite = true) (h : 0.0 ≤ a) : ∃ x, Amount a x := by
  change a.toModel.unpack.isFinite = true at hfin
  rw [zero_le_iff_nonneg] at h
  unfold Amount
  rcases hu : a.toModel.unpack with _ | _ | s | ⟨s, m, e, hm⟩ <;> rw [hu] at hfin h
  · cases hfin
  · cases hfin
  · exact ⟨0, .zero s⟩
  · obtain rfl : s = .positive := h
    exact ⟨_, .finite hm (canonical_unpack hm hu).1⟩

/-- An amount can be read from where it stands. -/
theorem amount_of_standing {m : ℕ} {e : ℤ} (h : standing a = some (toLex (1, toLex (e, (m : ℤ))))) :
    Amount a (m * 2 ^ e) := by
  unfold standing at h
  unfold Amount
  rcases hu : a.toModel.unpack with ⟨_ | _⟩ | _ | _ | ⟨_ | _, n, f, hn⟩ <;> rw [hu] at h <;>
    simp [rank, Sign.apply] at h
  obtain ⟨rfl, rfl⟩ := h
  exact .finite hn (canonical_unpack hn hu).1

theorem Amount.lt_top (h : Amount a x) : x < 2 ^ 1024 := by
  unfold Amount at h
  rcases hu : a.toModel.unpack with _ | _ | s | ⟨s, m, e, hm⟩ <;> rw [hu] at h <;> cases h
  · norm_num
  · obtain ⟨hc, hle⟩ := canonical_unpack hm hu
    exact hc.lt_top hle

theorem one_lt_top : (1 : ℚ) < 2 ^ 1024 := one_lt_pow₀ one_lt_two (by decide)

theorem two_zpow_lt_top {f : ℤ} (hf : f < 1024) : (2 : ℚ) ^ f < 2 ^ 1024 := by
  rw [← zpow_natCast]
  exact zpow_lt_zpow_right₀ one_lt_two hf

/-! ## Operations -/

/-- The whole part of a fraction, and what is left of it. -/
theorem approximates_div (m : ℕ) {n : ℕ} (hn : 0 < n) :
    Approximates (.ofMantissaAndAccuracy (m / n) (accuracyOfFraction (m % n) n)) (m / n : ℚ) := by
  have hn' : (0 : ℚ) < n := Nat.cast_pos.2 hn
  refine ⟨?_, ?_, fun hq => ?_⟩
  · rw [mantissa_ofMantissaAndAccuracy]
    exact Nat.cast_div_le
  · rw [mantissa_ofMantissaAndAccuracy, div_lt_iff₀ hn']
    exact_mod_cast Nat.lt_div_mul_add hn |>.trans_eq (by ring)
  · rw [mantissa_ofMantissaAndAccuracy, div_eq_iff hn'.ne'] at hq
    have hq' : m = m / n * n := by exact_mod_cast hq
    have hrest : m % n = 0 := by
      have := Nat.div_add_mod' m n
      omega
    rw [hrest]
    exact ⟨rfl, rfl⟩

/-- A unit need not be made smaller where all digits are there. -/
theorem le_targetExponent {m : ℕ} {e : ℤ} (h : 2 ^ 52 ≤ m ∨ e ≤ -1074) :
    e ≤ Format.binary64.targetExponent (totalExponent m e) := by
  rw [targetExponent_eq, totalExponent]
  rcases h with hfull | hleast
  · have hlog : 52 ≤ m.log2 := (Nat.le_log2 (by omega)).2 hfull
    omega
  · omega

theorem Value.mul {u v : UnpackedFloat} (hu : Value u x) (hv : Value v y) :
    ∃ z, Value (UnpackedFloat.mul .binary64 u v) z ∧ Rounds (x * y) z := by
  cases hu with
  | zero s =>
    refine ⟨0, ?_, by simpa using Rounds.refl 0⟩
    cases hv <;> exact .zero _
  | @finite m e hm hc =>
    cases hv with
    | zero s => exact ⟨0, .zero _, by simpa using Rounds.refl 0⟩
    | @finite n f hn hc' =>
      have hexact : (m * 2 ^ e * (n * 2 ^ f) / 2 ^ (e + f) : ℚ) = (m * n : ℕ) := by
        rw [zpow_add₀ two_ne_zero]
        push_cast
        field_simp
      refine exists_rounds (hexact ▸ approximates_exact _) ?_
      refine le_targetExponent ?_
      rcases hc.full with hfull | rfl
      · exact .inl (hfull.trans (Nat.le_mul_of_pos_right m hn))
      · rcases hc'.full with hfull | rfl
        · exact .inl (hfull.trans (Nat.le_mul_of_pos_left n hm))
        · exact .inr (by decide)

theorem Value.div {u v : UnpackedFloat} (hu : Value u x) (hv : Value v y) (hy : 0 < y) :
    ∃ z, Value (UnpackedFloat.div .binary64 u v) z ∧ Rounds (x / y) z := by
  cases hv with
  | zero s => exact absurd hy (lt_irrefl 0)
  | @finite n f hn hc' =>
    cases hu with
    | zero s => exact ⟨0, .zero _, by simpa using Rounds.refl 0⟩
    | @finite m e hm hc =>
      obtain ⟨t, ht⟩ : ∃ t, min (e - f) (Format.binary64.targetExponent (totalExponent m e - totalExponent n f)) = t :=
        ⟨_, rfl⟩
      obtain ⟨k, hk⟩ : ∃ k, (e - f - t).toNat = k := ⟨_, rfl⟩
      have hunit : e - f = t + k := by omega
      have hcore : divCore .binary64 m e n f = (m <<< k / n, t, accuracyOfFraction (m <<< k % n) n) := by
        simp only [divCore, ht, hk]
      have hexact : (m * 2 ^ e / (n * 2 ^ f) / 2 ^ t : ℚ) = (m <<< k : ℕ) / n := by
        obtain rfl : e = t + k + f := by omega
        rw [zpow_add₀ two_ne_zero, two_zpow_add, Nat.shiftLeft_eq]
        push_cast
        field_simp
      change ∃ z, Value (match divCore .binary64 m e n f with
        | (m, e, acc) => roundWithAccuracy .binary64 .positive m e acc) z ∧ _
      rw [hcore]
      refine exists_rounds (hexact ▸ approximates_div _ hn) (le_targetExponent ?_)
      rw [targetExponent_eq, totalExponent, totalExponent] at ht
      rw [Nat.shiftLeft_eq, Nat.le_div_iff_mul_le hn]
      refine or_iff_not_imp_right.2 fun hleast => ?_
      have hdigits : 52 + (n.log2 + 1) ≤ m.log2 + k := by omega
      calc 2 ^ 52 * n ≤ 2 ^ 52 * 2 ^ (n.log2 + 1) := Nat.mul_le_mul_left _ Nat.lt_log2_self.le
        _ = 2 ^ (52 + (n.log2 + 1)) := (pow_add ..).symm
        _ ≤ 2 ^ (m.log2 + k) := Nat.pow_le_pow_right (by decide) hdigits
        _ = 2 ^ m.log2 * 2 ^ k := pow_add ..
        _ ≤ m * 2 ^ k := Nat.mul_le_mul_right _ (Nat.log2_self_le hm.ne')

/-- A mantissa with too few digits is given more before it is rounded. -/
theorem Value.round {n : ℕ} (hn : 0 < n) (e : ℤ) :
    ∃ z, Value (UnpackedFloat.round .binary64 .positive n e) z ∧ Rounds (n * 2 ^ e) z := by
  obtain ⟨k, hk⟩ : ∃ k, (e - Format.binary64.targetExponent (totalExponent n e)).toNat = k := ⟨_, rfl⟩
  have hround : UnpackedFloat.round .binary64 .positive n e =
      roundWithAccuracy .binary64 .positive (n <<< k) (e - k) .exact := by
    simp only [UnpackedFloat.round, decreaseExponent, hk]
  have hexact : (n * 2 ^ e : ℚ) / 2 ^ (e - k : ℤ) = (n <<< k : ℕ) := by
    rw [zpow_sub₀ two_ne_zero, zpow_natCast, Nat.shiftLeft_eq]
    push_cast
    field_simp
  rw [hround]
  refine exists_rounds (hexact ▸ approximates_exact _) (le_targetExponent ?_)
  rw [targetExponent_eq, totalExponent] at hk
  refine or_iff_not_imp_right.2 fun hleast => ?_
  have hdigits : 52 ≤ n.log2 + k := by omega
  calc 2 ^ 52 ≤ 2 ^ (n.log2 + k) := Nat.pow_le_pow_right (by decide) hdigits
    _ = 2 ^ n.log2 * 2 ^ k := pow_add ..
    _ ≤ n * 2 ^ k := Nat.mul_le_mul_right _ (Nat.log2_self_le hn.ne')
    _ = n <<< k := (Nat.shiftLeft_eq n k).symm

theorem Value.ofNat {n : ℕ} (hn : 0 < n) : ∃ z, Value (UnpackedFloat.ofNat .binary64 n) z ∧ Rounds n z := by
  have hround : UnpackedFloat.ofNat .binary64 n = UnpackedFloat.round .binary64 .positive n 0 := by
    have hcompare : compare (n : ℤ) 0 = .gt := compare_gt_iff_gt.2 (by omega)
    simp only [UnpackedFloat.ofNat, UnpackedFloat.ofInt, UnpackedFloat.normalize, hcompare, Int.toNat_natCast]
  rw [hround]
  simpa using Value.round hn 0

/-- A result that is not too large is an amount. -/
theorem amount_of_value {u : UnpackedFloat} (ha : a.toModel.unpack =
    UnpackedFloat.unpack .binary64 (UnpackedFloat.pack .binary64 u)) (hu : Value u x) (hx : x < 2 ^ 1024) :
    Amount a x := by
  rw [Amount, ha, hu.unpack_pack hx]
  exact hu

variable {c : ℚ}

theorem Amount.mul (ha : Amount a x) (hb : Amount b y) (hc : Representable c) (hle : x * y ≤ c) (htop : c < 2 ^ 1024) :
    ∃ z, Amount (a * b) z ∧ Rounds (x * y) z := by
  obtain ⟨z, hz, hround⟩ := Value.mul ha hb
  exact ⟨z, amount_of_value rfl hz ((hround.le hc hle).trans_lt htop), hround⟩

theorem Amount.div (ha : Amount a x) (hb : Amount b y) (hy : 0 < y) (hc : Representable c) (hle : x / y ≤ c)
    (htop : c < 2 ^ 1024) : ∃ z, Amount (a / b) z ∧ Rounds (x / y) z := by
  obtain ⟨z, hz, hround⟩ := Value.div ha hb hy
  exact ⟨z, amount_of_value rfl hz ((hround.le hc hle).trans_lt htop), hround⟩

theorem amount_one : Amount 1.0 1 := by
  have hone : (1.0 : Float).toModel.unpack = .finite .positive (2 ^ 52) (-52) (by decide) := rfl
  have hvalue : (1 : ℚ) = (2 ^ 52 : ℕ) * 2 ^ (-52 : ℤ) := by norm_num
  rw [Amount, hone, hvalue]
  exact .finite _ ⟨by decide, by decide, .inl le_rfl⟩

theorem representable_natCast {n : ℕ} (hn : n ≤ 2 ^ 53) : Representable n := ⟨n, 0, hn, by decide, by simp⟩

/-- Whole numbers of at most 53 digits are taken as they are. -/
theorem amount_ofNat {n : ℕ} (hn : 0 < n) (hlt : n < 2 ^ 53) : Amount (Scalar.ofNat n) n := by
  have hrep : Representable n := representable_natCast hlt.le
  have htop : (n : ℚ) < 2 ^ 1024 := by
    calc (n : ℚ) < 2 ^ 53 := by exact_mod_cast hlt
      _ ≤ 2 ^ 1024 := pow_le_pow_right₀ one_le_two (by decide)
  have hword : n.toUInt64.toNat = n := Nat.mod_eq_of_lt (hlt.trans (by decide))
  have hofNat : (Scalar.ofNat n : Float) = n.toUInt64.toFloat * 1.0 := by
    change Float.ofScientific n false 0 = _
    unfold Float.ofScientific
    rw [dif_pos ⟨hlt, by decide⟩]
    rfl
  have hconv : Amount n.toUInt64.toFloat n := by
    obtain ⟨z, hz, hround⟩ := Value.ofNat hn
    obtain rfl := hround.eq hrep
    have hz' : Value (UnpackedFloat.ofNat .binary64 n.toUInt64.toNat) n := hword.symm ▸ hz
    exact amount_of_value rfl hz' htop
  obtain ⟨z, hz, hround⟩ := hconv.mul amount_one hrep (mul_one _).le htop
  rw [mul_one] at hround
  rw [hofNat, ← hround.eq hrep]
  exact hz

end PrinterMotion.Binary64
