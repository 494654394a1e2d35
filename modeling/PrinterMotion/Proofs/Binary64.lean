/-
Binary64 numbers keep the laws of comparison. Each number that is not missing has a standing in a linear
order, which zero of either sign shares, and comparisons compare standings.
-/
import Mathlib
import PrinterMotion.Proofs.Comparison

open Float.Model Float.Model.UnpackedFloat

namespace PrinterMotion.Binary64

/-! ## Standings -/

/-- Infinities stand at the ends and zero in the middle; between them numbers stand by exponent first. -/
def rank : UnpackedFloat → Option (ℤ ×ₗ ℤ ×ₗ ℤ)
  | .notANumber => none
  | .infinity s => some (toLex (s.apply 2, toLex (0, 0)))
  | .zero _ => some (toLex (0, toLex (0, 0)))
  | .finite s m e _ => some (toLex (s.apply 1, toLex (s.apply e, s.apply m)))

theorem compare_natCast (m n : ℕ) : compare (m : ℤ) n = compare m n := by
  simp only [compare, compareOfLessAndEq]
  grind

theorem compare_neg (e f : ℤ) : compare (-e) (-f) = (compare e f).swap := by
  simp only [compare, compareOfLessAndEq]
  grind [Ordering.swap]

theorem compare_of_rank {u v : UnpackedFloat} {x y : ℤ ×ₗ ℤ ×ₗ ℤ} (hu : rank u = some x)
    (hv : rank v = some y) : u.compare v = some (compare x y) := by
  rcases u with ⟨_ | _⟩ | _ | _ | ⟨_ | _, m, e, hm⟩ <;>
    rcases v with ⟨_ | _⟩ | _ | _ | ⟨_ | _, n, f, hn⟩ <;> cases hu <;> cases hv
  case finite.negative.finite.negative =>
    have : ((compare e f).then (compare m n)).swap =
        (compare (-e) (-f)).then (compare (-m : ℤ) (-n)) := by
      rw [Ordering.swap_then, ← compare_natCast, compare_neg, compare_neg]
    exact congrArg some this
  case finite.positive.finite.positive =>
    exact congrArg (fun o => some ((compare e f).then o)) (compare_natCast m n).symm
  -- where the first components differ, nothing else is looked at
  all_goals rfl

theorem compare_of_rank_none {u v : UnpackedFloat} (h : rank u = none ∨ rank v = none) :
    u.compare v = none := by
  rcases u with _ | _ | _ | ⟨_ | _, _⟩ <;> rcases v with ⟨_ | _⟩ | _ | _ | ⟨_ | _, _⟩ <;>
    simp [rank] at h <;> rfl

/-- Where a number stands. A missing one stands nowhere. -/
def standing (a : Float) : Option (ℤ ×ₗ ℤ ×ₗ ℤ) := rank a.toModel.unpack

variable {a b : Float}

theorem compare_eq_some {o : Ordering} : a.toModel.unpack.compare b.toModel.unpack = some o ↔
    ∃ x ∈ standing a, ∃ y ∈ standing b, compare x y = o := by
  simp only [standing]
  generalize a.toModel.unpack = u, b.toModel.unpack = v
  cases hu : rank u with
  | none => simp [compare_of_rank_none (.inl hu)]
  | some x =>
    cases hv : rank v with
    | none => simp [compare_of_rank_none (.inr hv)]
    | some y => simp [compare_of_rank hu hv]

theorem lt_iff_standing : a < b ↔ ∃ x ∈ standing a, ∃ y ∈ standing b, x < y := by
  have hlt : a < b ↔ (a.toModel.unpack.compare b.toModel.unpack == some .lt) = true := decide_eq_true_iff
  rw [hlt, beq_iff_eq, compare_eq_some]
  simp only [compare_lt_iff_lt]

theorem le_iff_standing : a ≤ b ↔ ∃ x ∈ standing a, ∃ y ∈ standing b, x ≤ y := by
  have hle : a ≤ b ↔ (a.toModel.unpack.compare b.toModel.unpack).any (·.isLE) = true := decide_eq_true_iff
  simp only [hle, Option.any_eq_true, compare_eq_some, ← compare_le_iff_le]
  constructor
  · rintro ⟨o, ⟨x, hx, y, hy, rfl⟩, hxy⟩
    exact ⟨x, hx, y, hy, Ordering.isLE_iff_ne_gt.1 hxy⟩
  · rintro ⟨x, hx, y, hy, hxy⟩
    exact ⟨_, ⟨x, hx, y, hy, rfl⟩, Ordering.isLE_iff_ne_gt.2 hxy⟩

theorem beq_iff_standing : (a == b) = true ↔ ∃ x ∈ standing a, x ∈ standing b := by
  have heq : (a == b) = (a.toModel.unpack.compare b.toModel.unpack == some .eq) := rfl
  rw [heq, beq_iff_eq, compare_eq_some]
  simp only [compare_eq_iff_eq, exists_eq_right']

theorem isNumber_iff_standing : Scalar.isNumber a = true ↔ ∃ x, x ∈ standing a :=
  beq_iff_standing.trans (exists_congr fun _ => and_self_iff)

/-! ## Halves -/

/-- Zero of either sign, or more. -/
def Nonneg : UnpackedFloat → Prop
  | .notANumber => False
  | .zero _ => True
  | .infinity s | .finite s .. => s = .positive

theorem zero_le_iff_nonneg : 0.0 ≤ a ↔ Nonneg a.toModel.unpack := by
  have hzero : standing 0.0 = some (toLex (0, toLex (0, 0))) := rfl
  rw [le_iff_standing, hzero]
  simp only [standing, Option.mem_def, Option.some.injEq, exists_eq_left']
  rcases a.toModel.unpack with ⟨_ | _⟩ | _ | _ | ⟨_ | _, m, e, hm⟩ <;>
    simp [rank, Nonneg, Prod.Lex.toLex_le_toLex, Sign.apply]

variable {spec : Format}

theorem nonneg_unpack_packComponents {x : BitVec spec.exponentBits}
    {m : BitVec spec.mantissaBitsWithoutImplicit} (hm : x = -1#_ → m = 0#_) :
    Nonneg (UnpackedFloat.unpack spec (packComponents spec .positive x m)) := by
  unfold UnpackedFloat.unpack
  simp only [unpackMantissa_packComponents, unpackExponent_packComponents, unpackSign_packComponents,
    Sign.ofBitVec_toBitVec]
  split_ifs with hx hm'
  · rfl
  · exact hm' (hm hx)
  all_goals trivial

/-- Packing rounds some numbers to infinity and none to a missing number. -/
theorem Nonneg.unpack_pack {u : UnpackedFloat} (h : Nonneg u) :
    Nonneg (UnpackedFloat.unpack spec (UnpackedFloat.pack spec u)) := by
  fun_cases UnpackedFloat.pack spec u with
  | case1 => exact h.elim
  | case2 s =>
    obtain rfl : s = .positive := h
    exact nonneg_unpack_packComponents fun _ => rfl
  | case3 s =>
    rw [unpack_packedZero]
    trivial
  | case4 s =>
    obtain rfl : s = .positive := h
    exact nonneg_unpack_packComponents fun _ => rfl
  | case5 s m e hm bits biased hlt =>
    obtain rfl : s = .positive := h
    refine nonneg_unpack_packComponents fun hx => absurd hx ?_
    rw [← BitVec.toNat_inj, BitVec.neg_one_eq_allOnes, BitVec.toNat_allOnes, BitVec.toNat_ofNat,
      Nat.mod_eq_of_lt (by omega : biased < 2 ^ spec.exponentBits)]
    omega
  | case6 s =>
    obtain rfl : s = .positive := h
    exact nonneg_unpack_packComponents fun hx => absurd (BitVec.zero_eq_neg_one_iff.1 hx) spec.he.ne'

theorem Nonneg.mul {u : UnpackedFloat} (h : Nonneg u) {m : ℕ} (e : ℤ) (hm : 0 < m) :
    Nonneg (UnpackedFloat.mul spec (.finite .positive m e hm) u) := by
  cases u with
  | notANumber => exact h.elim
  | zero s => trivial
  | infinity s =>
    obtain rfl : s = .positive := h
    rfl
  | finite s n f hn =>
    obtain rfl : s = .positive := h
    change Nonneg (roundWithAccuracy spec .positive (m * n) (e + f) .exact)
    unfold roundWithAccuracy
    dsimp only
    split <;> trivial

/-- Half of a number keeps its sign, also where it is rounded to zero. -/
theorem half_nonneg (h : 0.0 ≤ a) : 0.0 ≤ 0.5 * a := by
  rw [zero_le_iff_nonneg] at h ⊢
  have hhalf : (0.5 : Float).toModel.unpack = .finite .positive (2 ^ 52) (-53) (by decide) := rfl
  have hmul : (0.5 * a).toModel.unpack = UnpackedFloat.unpack .binary64 (UnpackedFloat.pack .binary64
      (UnpackedFloat.mul .binary64 (0.5 : Float).toModel.unpack a.toModel.unpack)) := rfl
  rw [hmul, hhalf]
  exact (h.mul _ _).unpack_pack

/-! ## The laws -/

instance : Scalar.Lawful Float where
  isNumber_of_le h := by
    obtain ⟨x, hx, y, hy, -⟩ := le_iff_standing.1 h
    exact ⟨isNumber_iff_standing.2 ⟨x, hx⟩, isNumber_iff_standing.2 ⟨y, hy⟩⟩
  le_self h := by
    obtain ⟨x, hx⟩ := isNumber_iff_standing.1 h
    exact le_iff_standing.2 ⟨x, hx, x, hx, le_rfl⟩
  le_of_lt h := by
    obtain ⟨x, hx, y, hy, hlt⟩ := lt_iff_standing.1 h
    exact le_iff_standing.2 ⟨x, hx, y, hy, hlt.le⟩
  le_of_not_lt ha hb h := by
    obtain ⟨x, hx⟩ := isNumber_iff_standing.1 ha
    obtain ⟨y, hy⟩ := isNumber_iff_standing.1 hb
    have hle : y ≤ x := not_lt.1 fun hlt => h (lt_iff_standing.2 ⟨x, hx, y, hy, hlt⟩)
    exact le_iff_standing.2 ⟨y, hy, x, hx, hle⟩
  le_trans h h' := by
    obtain ⟨x, hx, y, hy, hxy⟩ := le_iff_standing.1 h
    obtain ⟨y', hy', z, hz, hyz⟩ := le_iff_standing.1 h'
    obtain rfl := Option.mem_unique hy hy'
    exact le_iff_standing.2 ⟨x, hx, z, hz, hxy.trans hyz⟩
  lt_of_le h hne := by
    obtain ⟨x, hx, y, hy, hle⟩ := le_iff_standing.1 h
    refine lt_iff_standing.2 ⟨x, hx, y, hy, hle.lt_of_ne ?_⟩
    rintro rfl
    exact Bool.eq_false_iff.1 hne (beq_iff_standing.2 ⟨x, hx, hy⟩)
  beq_of_lt h := by
    obtain ⟨x, hx, y, hy, hlt⟩ := lt_iff_standing.1 h
    refine Bool.eq_false_iff.2 fun heq => ?_
    obtain ⟨z, hz, hz'⟩ := beq_iff_standing.1 heq
    exact hlt.ne ((Option.mem_unique hx hz).trans (Option.mem_unique hz' hy))
  beq_symm := BEq.symm
  beq_trans := BEq.trans
  le_of_beq h := by
    obtain ⟨x, hx, hx'⟩ := beq_iff_standing.1 h
    exact le_iff_standing.2 ⟨x, hx, x, hx', le_rfl⟩
  eq_of_beq h hne := by
    obtain ⟨-, -, heq | ⟨rfl, -⟩ | ⟨rfl, -⟩⟩ := Float.beq_iff_ne_nan_and_eq.1 h
    · exact heq
    · exact absurd hne (by decide +kernel)
    · exact absurd hne (by decide +kernel)
  half_nonneg := half_nonneg
  zero_le_milli := by decide +kernel

end PrinterMotion.Binary64
