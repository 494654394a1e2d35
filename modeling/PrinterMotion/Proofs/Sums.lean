/-
Laws of sums and differences that binary64 shares with exact fields. What bounds the exact sum of two finite
numbers, and is itself a number of the format, bounds what the sum is rounded to, whatever the signs, and also
where the sum is too large. So to add a number that is not negative never leads down, and to take one away
never leads up.
-/
import PrinterMotion.Proofs.Rounding

open Float.Model Float.Model.UnpackedFloat

namespace PrinterMotion

/-- Laws of sums, for numbers that may be missing or infinite: finite numbers are not led down by what is added,
nor up by what is taken away, if that is not negative. -/
class Scalar.Directed (α : Type) [Scalar α] : Prop extends Scalar.Lawful α where
  not_lt_of_le {a b : α} : a ≤ b → ¬b < a
  le_add {a b : α} : isFinite a = true → isFinite b = true → (0.0 : α) ≤ b → a ≤ a + b
  sub_le {a b : α} : isFinite a = true → isFinite b = true → (0.0 : α) ≤ b → a - b ≤ a
  isFinite_nano : isFinite (0.000000001 : α) = true
  zero_le_nano : (0.0 : α) ≤ 0.000000001

instance (F : Type) [Exact F] : Scalar.Directed F where
  not_lt_of_le := not_lt.2
  le_add _ _ h := le_add_of_nonneg_right (Scalar.zero_literal (F := F) ▸ h)
  sub_le _ _ h := sub_le_self _ (Scalar.zero_literal (F := F) ▸ h)
  isFinite_nano := Scalar.isFinite_eq _
  zero_le_nano := by norm_num

namespace Binary64

/-! ## Order -/

/-- The standings of two unpacked numbers are in order; neither is missing. -/
def Before (u v : UnpackedFloat) : Prop := ∃ p ∈ rank u, ∃ q ∈ rank v, p ≤ q

theorem le_iff_before {a b : Float} : a ≤ b ↔ Before a.toModel.unpack b.toModel.unpack := le_iff_standing

theorem apply_neg (s : Sign) (n : ℤ) : (-s).apply n = -s.apply n := by
  cases s
  · exact (neg_neg n).symm
  · rfl

theorem rank_neg (u : UnpackedFloat) : rank u.neg = (rank u).map (-·) := by
  cases u with
  | notANumber => rfl
  | zero s => rfl
  | infinity s =>
    change some (toLex ((-s).apply 2, toLex (0, 0))) = _
    rw [apply_neg]
    rfl
  | finite s m e hm =>
    change some (toLex ((-s).apply 1, toLex ((-s).apply e, (-s).apply m))) = _
    rw [apply_neg, apply_neg, apply_neg]
    rfl

theorem neg_neg_unpacked (u : UnpackedFloat) : u.neg.neg = u := by
  rcases u with ⟨_ | _⟩ | _ | ⟨_ | _⟩ | ⟨_ | _, _⟩ <;> rfl

theorem Before.neg {u v : UnpackedFloat} (h : Before u v) : Before v.neg u.neg := by
  obtain ⟨p, hp, q, hq, hle⟩ := h
  refine ⟨-q, ?_, -p, ?_, neg_le_neg hle⟩
  · rw [rank_neg, Option.mem_def.1 hq]
    rfl
  · rw [rank_neg, Option.mem_def.1 hp]
    rfl

theorem unpack_packComponents_neg (s : Sign) (x : BitVec 11) (m : BitVec 52) (h : x = -1#11 → m = 0#52) :
    UnpackedFloat.unpack .binary64 (packComponents .binary64 (-s) x m) =
      (UnpackedFloat.unpack .binary64 (packComponents .binary64 s x m)).neg := by
  unfold UnpackedFloat.unpack
  simp only [unpackMantissa_packComponents, unpackExponent_packComponents, unpackSign_packComponents,
    Sign.ofBitVec_toBitVec]
  split_ifs with hones hm
  · rfl
  · exact absurd (h hones) hm
  all_goals rfl

/-- Packing is the same for either sign. -/
theorem unpack_pack_neg (u : UnpackedFloat) : UnpackedFloat.unpack .binary64 (UnpackedFloat.pack .binary64 u.neg) =
    (UnpackedFloat.unpack .binary64 (UnpackedFloat.pack .binary64 u)).neg := by
  cases u with
  | notANumber => rfl
  | infinity s => exact unpack_packComponents_neg s _ _ fun _ => rfl
  | zero s => exact unpack_packComponents_neg s _ _ fun _ => rfl
  | finite s m e hm =>
    simp only [UnpackedFloat.neg, UnpackedFloat.pack]
    split_ifs with htop hfull
    · exact unpack_packComponents_neg s _ _ fun _ => rfl
    · refine unpack_packComponents_neg s _ _ fun hones => absurd hones ?_
      generalize (e + Format.binary64.exponentBias + Format.binary64.mantissaBitsWithoutImplicit).toNat = n at htop
      have hn : ¬ 2 ^ 11 ≤ n + 1 := htop
      rw [← BitVec.toNat_inj, BitVec.toNat_ofNat]
      change ¬ n % 2 ^ 11 = 2047
      omega
    · exact unpack_packComponents_neg s _ _ fun hones => absurd hones (by decide)

section Value
variable {u v : UnpackedFloat} {x y : ℚ} {p q : ℤ ×ₗ ℤ ×ₗ ℤ}

/-- A number with a larger exponent, or with the same one and more digits, is larger. -/
theorem Canonical.strictMono {m n : ℕ} {e f : ℤ} (hm : Canonical m e) (hn : Canonical n f)
    (h : e < f ∨ e = f ∧ m < n) : (m : ℚ) * 2 ^ e < n * 2 ^ f := by
  rcases h with hlt | ⟨rfl, hlt⟩
  · have hfull : 2 ^ 52 ≤ n := hn.full.resolve_right (by have := hm.le; omega)
    have hunit : (2 : ℚ) * 2 ^ e ≤ 2 ^ f := by
      rw [← zpow_one_add₀ two_ne_zero]
      exact zpow_le_zpow_right₀ one_le_two (by omega)
    have hm' : (m : ℚ) < 2 ^ 52 * 2 := by exact_mod_cast hm.lt
    have hn' : (2 : ℚ) ^ 52 ≤ n := by exact_mod_cast hfull
    calc (m : ℚ) * 2 ^ e < 2 ^ 52 * 2 * 2 ^ e := by gcongr
      _ = 2 ^ 52 * (2 * 2 ^ e) := mul_assoc _ _ _
      _ ≤ n * 2 ^ f := by gcongr
  · gcongr

/-- What has the smaller value stands in front. -/
theorem Value.before (hu : Value u x) (hv : Value v y) (h : x ≤ y) : Before u v := by
  cases hu with
  | zero =>
    cases hv with
    | zero => exact ⟨_, rfl, _, rfl, le_rfl⟩
    | finite hn hc => exact ⟨_, rfl, _, rfl, by simp [Prod.Lex.toLex_le_toLex, Sign.apply]⟩
  | @finite m e hm hc =>
    cases hv with
    | zero => exact absurd h (not_le.2 (by positivity))
    | @finite n f hn hc' =>
      refine ⟨_, rfl, _, rfl, ?_⟩
      have horder : ¬ (f < e ∨ f = e ∧ n < m) := fun hlt => absurd h (not_le.2 (hc'.strictMono hc hlt))
      have hle : e < f ∨ e = f ∧ m ≤ n := by omega
      simpa [Prod.Lex.toLex_le_toLex, Sign.apply] using hle

/-- A number that is too large is packed as infinity, which nothing stands behind. -/
theorem Value.unpack_pack_top (h : Value v y) (hy : 2 ^ 1024 ≤ y) :
    UnpackedFloat.unpack .binary64 (UnpackedFloat.pack .binary64 v) = .infinity .positive := by
  cases h with
  | zero s => exact absurd hy (by norm_num)
  | @finite m e hm hc =>
    have hexp : 972 ≤ e := by
      by_contra hsmall
      exact absurd hy (not_le.2 (hc.lt_top (by omega)))
    have hpack : UnpackedFloat.pack .binary64 (.finite .positive m e hm) = packedInfinity .binary64 .positive := by
      change (if 2 ^ 11 ≤ (e + 1023 + 52).toNat + 1 then _ else _) = _
      rw [if_pos (by omega)]
    rw [hpack]
    rfl

/-- What bounds a number that a result may be rounded to bounds what is packed. -/
theorem Value.before_pack (hu : Value u x) (hv : Value v y) (h : x ≤ y) :
    Before u (UnpackedFloat.unpack .binary64 (UnpackedFloat.pack .binary64 v)) := by
  rcases lt_or_ge y (2 ^ 1024) with hlt | hge
  · rw [hv.unpack_pack hlt]
    exact hu.before hv h
  · rw [hv.unpack_pack_top hge]
    cases hu <;> exact ⟨_, rfl, _, rfl, by simp [Prod.Lex.toLex_le_toLex, Sign.apply]⟩

/-- A finite number that is read or rounded, of either sign, and its value. -/
def Signed (u : UnpackedFloat) (x : ℚ) : Prop := Value u x ∨ Value u.neg (-x)

theorem Signed.neg (h : Signed u x) : Signed u.neg (-x) := by
  rcases h with h | h
  · right
    rwa [neg_neg_unpacked, neg_neg]
  · exact .inl h

theorem Before.trans {w : UnpackedFloat} (h : Before u v) (h' : Before v w) : Before u w := by
  obtain ⟨p, hp, q, hq, hle⟩ := h
  obtain ⟨q', hq', r, hr, hle'⟩ := h'
  obtain rfl := Option.mem_unique hq hq'
  exact ⟨p, hp, r, hr, hle.trans hle'⟩

theorem Signed.before (hu : Signed u x) (hv : Signed v y) (h : x ≤ y) : Before u v := by
  rcases hu with hu | hu <;> rcases hv with hv | hv
  · exact hu.before hv h
  · -- Both are zero.
    have hx := hu.nonneg
    have hy := hv.nonneg
    have hback := (hv.before (.zero .positive) (by linarith)).neg
    rw [neg_neg_unpacked] at hback
    exact (hu.before (.zero _) (by linarith)).trans hback
  · have hback := ((Value.zero .positive).before hu hu.nonneg).neg
    rw [neg_neg_unpacked] at hback
    exact hback.trans ((Value.zero _).before hv hv.nonneg)
  · have hback := (hv.before hu (neg_le_neg h)).neg
    rwa [neg_neg_unpacked, neg_neg_unpacked] at hback

theorem Signed.before_pack (hu : Signed u x) (hv : Value v y) (h : x ≤ y) :
    Before u (UnpackedFloat.unpack .binary64 (UnpackedFloat.pack .binary64 v)) := by
  rcases hu with hu | hu
  · exact hu.before_pack hv h
  · have hback := ((Value.zero .positive).before hu hu.nonneg).neg
    rw [neg_neg_unpacked] at hback
    exact hback.trans ((Value.zero _).before_pack hv hv.nonneg)

theorem Signed.unpack_pack (h : Signed u x) (hx : |x| < 2 ^ 1024) :
    UnpackedFloat.unpack .binary64 (UnpackedFloat.pack .binary64 u) = u := by
  obtain ⟨hlow, hhigh⟩ := abs_lt.1 hx
  rcases h with h | h
  · exact h.unpack_pack hhigh
  · have hneg := h.unpack_pack (neg_lt.1 hlow)
    rw [unpack_pack_neg] at hneg
    rw [← neg_neg_unpacked (UnpackedFloat.unpack .binary64 (UnpackedFloat.pack .binary64 u)), hneg, neg_neg_unpacked]

theorem Signed.representable (h : Signed u x) (hx : 0 ≤ x) : Representable x := by
  rcases h with h | h
  · exact h.representable
  · obtain rfl : x = 0 := le_antisymm (by linarith [h.nonneg]) hx
    exact (Value.zero .positive).representable

/-! ## Sums -/

/-- What the packed `v` is, for a result `v` that is to be `x`: what bounds `x` bounds it. -/
def Bounded (v : UnpackedFloat) (x : ℚ) : Prop := ∀ (u : UnpackedFloat) (z : ℚ), Signed u z → |z| < 2 ^ 1024 →
  (z ≤ x → Before u (UnpackedFloat.unpack .binary64 (UnpackedFloat.pack .binary64 v))) ∧
    (x ≤ z → Before (UnpackedFloat.unpack .binary64 (UnpackedFloat.pack .binary64 v)) u)

theorem Signed.bounded (h : Signed v x) (hx : |x| < 2 ^ 1024) : Bounded v x := by
  intro u z hu _
  rw [h.unpack_pack hx]
  exact ⟨hu.before h, h.before hu⟩

theorem Bounded.neg (h : Bounded v x) : Bounded v.neg (-x) := by
  intro u z hu hz
  obtain ⟨hlow, hhigh⟩ := h _ _ hu.neg (by rwa [abs_neg])
  rw [unpack_pack_neg]
  constructor
  · intro hle
    have hback := (hhigh (by linarith)).neg
    rwa [neg_neg_unpacked] at hback
  · intro hle
    have hback := (hlow (by linarith)).neg
    rwa [neg_neg_unpacked] at hback

theorem bounded_round {n : ℕ} (hn : 0 < n) (e : ℤ) :
    Bounded (UnpackedFloat.round .binary64 .positive n e) (n * 2 ^ e) := by
  obtain ⟨w, hw, hround⟩ := Value.round hn e
  intro u z hu hz
  constructor
  · intro hle
    refine hu.before_pack hw ?_
    rcases le_or_gt 0 z with hpos | hneg
    · exact hround.ge (hu.representable hpos) hle
    · exact hneg.le.trans hw.nonneg
  · intro hle
    have hwz : w ≤ z := hround.le (hu.representable (le_trans (by positivity) hle)) hle
    rw [hw.unpack_pack (hwz.trans_lt (abs_lt.1 hz).2)]
    exact Signed.before (.inl hw) hu hwz

theorem round_negative (n : ℕ) (e : ℤ) : UnpackedFloat.round .binary64 .negative n e =
    (UnpackedFloat.round .binary64 .positive n e).neg := by
  simp only [UnpackedFloat.round, roundWithAccuracy]
  split
  · rfl
  · rfl

/-- Whatever is normalized is rounded to what is bounded by what bounds it. -/
theorem bounded_normalize (n e : ℤ) : Bounded (UnpackedFloat.normalize .binary64 n e .positive) (n * 2 ^ e) := by
  unfold UnpackedFloat.normalize
  rcases lt_trichotomy n 0 with hneg | rfl | hpos
  · obtain ⟨m, rfl⟩ : ∃ m : ℕ, n = -m := ⟨n.natAbs, by omega⟩
    have hm : 0 < m := by omega
    rw [compare_lt_iff_lt.2 hneg]
    have hround := (bounded_round hm e).neg
    rw [← round_negative] at hround
    simpa using hround
  · have hzero : Bounded (.zero .positive) 0 := Signed.bounded (.inl (.zero _)) (by norm_num)
    simpa using hzero
  · obtain ⟨m, rfl⟩ : ∃ m : ℕ, n = m := ⟨n.toNat, by omega⟩
    rw [compare_gt_iff_gt.2 hpos]
    simpa using bounded_round (by omega : 0 < m) e

theorem Signed.cases (h : Signed u x) :
    (∃ s, u = .zero s) ∧ x = 0 ∨ ∃ s m e hm, u = .finite s m e hm ∧ x = s.apply (m : ℕ) * 2 ^ e := by
  rcases h with h | h
  · cases h with
    | zero s => exact .inl ⟨⟨s, rfl⟩, rfl⟩
    | @finite m e hm hc => exact .inr ⟨.positive, m, e, hm, rfl, rfl⟩
  · rw [← neg_neg_unpacked u, ← neg_neg x]
    generalize u.neg = v, -x = y at h
    cases h with
    | zero s => exact .inl ⟨⟨-s, rfl⟩, neg_zero⟩
    | @finite m e hm hc => exact .inr ⟨.negative, m, e, hm, rfl, by simp [Sign.apply]⟩

theorem apply_shiftLeft (s : Sign) (m : ℕ) {e f : ℤ} (h : f ≤ e) :
    (s.apply (m <<< (e - f).toNat : ℕ) : ℚ) * 2 ^ f = s.apply (m : ℕ) * 2 ^ e := by
  obtain ⟨k, hk⟩ : ∃ k, (e - f).toNat = k := ⟨_, rfl⟩
  obtain rfl : e = f + k := by omega
  rw [hk, two_zpow_add, Nat.shiftLeft_eq]
  cases s <;> simp only [Sign.apply] <;> push_cast <;> ring

/-- What bounds the sum of two numbers bounds what it is rounded to. -/
theorem Signed.add (hu : Signed u x) (hv : Signed v y) (hx : |x| < 2 ^ 1024) (hy : |y| < 2 ^ 1024) :
    Bounded (UnpackedFloat.add .binary64 u v) (x + y) := by
  rcases hu.cases with ⟨⟨s, rfl⟩, rfl⟩ | ⟨s, m, e, hm, rfl, rfl⟩ <;>
    rcases hv.cases with ⟨⟨s', rfl⟩, rfl⟩ | ⟨s', n, f, hn, rfl, rfl⟩
  · have hzero : ∃ s'', UnpackedFloat.add .binary64 (.zero s) (.zero s') = .zero s'' := by
      cases s <;> cases s' <;> exact ⟨_, rfl⟩
    obtain ⟨s'', hadd⟩ := hzero
    rw [hadd, add_zero]
    exact Signed.bounded (.inl (.zero _)) hx
  · rw [zero_add]
    exact hv.bounded hy
  · rw [add_zero]
    exact hu.bounded hx
  · -- Both are taken to the smaller exponent, and then the sum is exact.
    have hsum := bounded_normalize (s.apply (m <<< (e - min e f).toNat : ℕ) + s'.apply (n <<< (f - min e f).toNat : ℕ))
      (min e f)
    rw [Int.cast_add, add_mul, apply_shiftLeft s m (min_le_left e f), apply_shiftLeft s' n (min_le_right e f)] at hsum
    exact hsum

theorem sub_eq_add_neg_unpacked (u v : UnpackedFloat) :
    UnpackedFloat.sub .binary64 u v = UnpackedFloat.add .binary64 u v.neg := by
  rcases u with s | _ | s | ⟨s, m, e, hm⟩ <;> rcases v with s' | _ | s' | ⟨s', n, f, hn⟩ <;> try rfl
  change UnpackedFloat.normalize .binary64 (_ - _) _ _ = UnpackedFloat.normalize .binary64 (_ + _) _ _
  rw [apply_neg, ← sub_eq_add_neg]

end Value

/-! ## Floats -/

variable {a b : Float}

theorem exists_signed (h : a.isFinite = true) : ∃ x, Signed a.toModel.unpack x ∧ |x| < 2 ^ 1024 := by
  change a.toModel.unpack.isFinite = true at h
  rcases hu : a.toModel.unpack with s | _ | s | ⟨s, m, e, hm⟩ <;> rw [hu] at h
  · cases h
  · cases h
  · exact ⟨0, .inl (.zero s), by norm_num⟩
  · obtain ⟨hc, hle⟩ := canonical_unpack hm hu
    have hvalue : Value (.finite .positive m e hm) (m * 2 ^ e) := .finite hm hc
    have habs : |(m : ℚ) * 2 ^ e| < 2 ^ 1024 := by
      rw [abs_of_nonneg hvalue.nonneg]
      exact hc.lt_top hle
    cases s
    · refine ⟨-(m * 2 ^ e), .inr ?_, by rwa [abs_neg]⟩
      rw [neg_neg]
      exact hvalue
    · exact ⟨_, .inl hvalue, habs⟩

/-- Adding a number that is not negative does not lead down. -/
theorem le_add (ha : a.isFinite = true) (hb : b.isFinite = true) (h : 0.0 ≤ b) : a ≤ a + b := by
  obtain ⟨x, hx, hxtop⟩ := exists_signed ha
  obtain ⟨y, hy⟩ := exists_amount hb h
  have hytop : |y| < 2 ^ 1024 := by
    rw [abs_of_nonneg (Value.nonneg hy)]
    exact hy.lt_top
  have hsum := hx.add (.inl hy) hxtop hytop
  exact le_iff_before.2 ((hsum _ _ hx hxtop).1 (le_add_of_nonneg_right (Value.nonneg hy)))

/-- Taking away a number that is not negative does not lead up. -/
theorem sub_le (ha : a.isFinite = true) (hb : b.isFinite = true) (h : 0.0 ≤ b) : a - b ≤ a := by
  obtain ⟨x, hx, hxtop⟩ := exists_signed ha
  obtain ⟨y, hy⟩ := exists_amount hb h
  have hytop : |-y| < 2 ^ 1024 := by
    rw [abs_neg, abs_of_nonneg (Value.nonneg hy)]
    exact hy.lt_top
  have hsum := hx.add (Signed.neg (.inl hy)) hxtop hytop
  rw [← sub_eq_add_neg_unpacked, ← sub_eq_add_neg] at hsum
  exact le_iff_before.2 ((hsum _ _ hx hxtop).2 (sub_le_self x (Value.nonneg hy)))

theorem isFinite_of_sub (h : Scalar.isFinite a = true) : a.isFinite = true := by
  have hsub : (a - a).toModel.unpack = UnpackedFloat.unpack .binary64
      (UnpackedFloat.pack .binary64 (UnpackedFloat.sub .binary64 a.toModel.unpack a.toModel.unpack)) := rfl
  obtain ⟨p, hp, -⟩ := beq_iff_standing.1 h
  change a.toModel.unpack.isFinite = true
  rw [standing, hsub] at hp
  generalize a.toModel.unpack = u at hp ⊢
  rcases u with ⟨_ | _⟩ | _ | s | ⟨s, m, e, hm⟩
  · cases (show none = some p from hp)
  · cases (show none = some p from hp)
  · cases (show none = some p from hp)
  · rfl
  · rfl

instance : Scalar.Directed Float where
  not_lt_of_le h h' := by
    obtain ⟨x, hx, y, hy, hle⟩ := le_iff_standing.1 h
    obtain ⟨y', hy', x', hx', hlt⟩ := lt_iff_standing.1 h'
    obtain rfl := Option.mem_unique hx hx'
    obtain rfl := Option.mem_unique hy hy'
    exact hle.not_gt hlt
  le_add ha hb := le_add (isFinite_of_sub ha) (isFinite_of_sub hb)
  sub_le ha hb := sub_le (isFinite_of_sub ha) (isFinite_of_sub hb)
  isFinite_nano := by decide +kernel
  zero_le_nano := by decide +kernel

end Binary64

end PrinterMotion
