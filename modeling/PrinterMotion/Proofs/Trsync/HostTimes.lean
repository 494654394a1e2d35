/-
Host times of clock readings. A reading is some number of ticks ahead of the reference point of its
estimate or behind it, the shorter way round the counter, and in exact arithmetic its host time is as many
ticks from that of the reference. So a reading comes back from its host time, on both sides of the
reference point and across the end of the counter, times increase along the way round, and a host time
comes back from the reading nearest to it up to half a tick.
-/
import PrinterMotion.Proofs.Exact
import PrinterMotion.Proofs.Trsync.Clocks

namespace PrinterMotion

/-! ## Signed ticks -/

namespace Clock

/-- A number of ticks that a signed 64-bit word holds. -/
def Signed (n : Int) : Prop := -2 ^ 63 ≤ n ∧ n < 2 ^ 63

theorem signed_diff (later earlier : UInt64) : Signed (diff later earlier) := by
  simp only [Signed, diff, Int.bmod, UInt64.size]
  omega

/-- The way from a reading to another leads there. -/
theorem shift_diff (later earlier : UInt64) : shift earlier (diff later earlier) = later := by
  have hlt := later.toNat_lt
  refine UInt64.toNat_inj.1 ?_
  rw [toNat_shift]
  simp only [diff, Int.bmod, UInt64.size]
  omega

/-- A signed number of ticks is the shorter way to where it leads. -/
theorem diff_shift {n : Int} (h : Signed n) (clock : UInt64) : diff (shift clock n) clock = n := by
  obtain ⟨hlow, hhigh⟩ := h
  have hlt := clock.toNat_lt
  rw [diff, toNat_shift]
  simp only [Int.bmod, UInt64.size]
  omega

theorem clampSigned_of_signed {n : Int} (h : Signed n) : clampSigned n = n := by
  obtain ⟨hlow, hhigh⟩ := h
  have hword : ((twoTo 63 : Nat) : Int) = 2 ^ 63 := rfl
  rw [clampSigned, hword]
  omega

theorem clampSigned_of_le {n : Int} (h : 2 ^ 63 ≤ n) : clampSigned n = 2 ^ 63 - 1 := by
  have hword : ((twoTo 63 : Nat) : Int) = 2 ^ 63 := rfl
  rw [clampSigned, hword]
  omega

theorem signed_clampSigned (n : Int) : Signed (clampSigned n) := by
  have hword : ((twoTo 63 : Nat) : Int) = 2 ^ 63 := rfl
  rw [clampSigned, hword, Signed]
  omega

end Clock

/-! ## Host times -/

namespace ClockEstimate

variable {F : Type} [Exact F]

/-- The ticks from the reference point to a host time, which need not be whole. -/
def count (ce : ClockEstimate F) (t : F) : F := (t - ce.refTime) * ce.freq

theorem toTime_eq (ce : ClockEstimate F) (clock : UInt64) :
    ce.toTime clock = (Clock.diff clock ce.refClock : F) / ce.freq + ce.refTime := rfl

theorem ofTime_eq (ce : ClockEstimate F) (t : F) :
    ce.ofTime t = Clock.shift ce.refClock (Clock.clampSigned ⌊ce.count t + 1 / 2⌋) := by
  have hhalf : (0.5 : F) = 1 / 2 := by norm_num
  rw [← hhalf]
  rfl

theorem count_toTime {ce : ClockEstimate F} (hf : 0 < ce.freq) (clock : UInt64) :
    ce.count (ce.toTime clock) = Clock.diff clock ce.refClock := by
  rw [count, toTime_eq, add_sub_cancel_right, div_mul_cancel₀ _ hf.ne']

theorem toTime_lt_toTime {ce : ClockEstimate F} (hf : 0 < ce.freq) {a b : UInt64} :
    ce.toTime a < ce.toTime b ↔ Clock.diff a ce.refClock < Clock.diff b ce.refClock := by
  rw [toTime_eq, toTime_eq, add_lt_add_iff_right, div_lt_div_iff_of_pos_right hf, Int.cast_lt]

theorem ofTime_toTime {ce : ClockEstimate F} (hf : 0 < ce.freq) (clock : UInt64) :
    ce.ofTime (ce.toTime clock) = clock := by
  have hhalf : ⌊(1 / 2 : F)⌋ = 0 := by norm_num
  rw [ofTime_eq, count_toTime hf, Int.floor_intCast_add, hhalf, add_zero,
    Clock.clampSigned_of_signed (Clock.signed_diff _ _), Clock.shift_diff]

/-- The signed word nearest to a number of ticks is at most half a tick off exactly up to half a tick
beyond the ends of the range. -/
theorem abs_clampSigned_sub_le (x : F) : |(Clock.clampSigned ⌊x + 1 / 2⌋ : F) - x| ≤ 1 / 2 ↔
    -2 ^ 63 - 1 / 2 ≤ x ∧ x ≤ 2 ^ 63 - 1 / 2 := by
  rw [abs_le]
  constructor
  · rintro ⟨hlow, hhigh⟩
    obtain ⟨hk, hk'⟩ := Clock.signed_clampSigned ⌊x + 1 / 2⌋
    have hge : (-2 ^ 63 : F) ≤ Clock.clampSigned ⌊x + 1 / 2⌋ := by exact_mod_cast hk
    have hle : (Clock.clampSigned ⌊x + 1 / 2⌋ : F) ≤ 2 ^ 63 - 1 := by
      have : Clock.clampSigned ⌊x + 1 / 2⌋ ≤ 2 ^ 63 - 1 := by omega
      exact_mod_cast this
    constructor <;> linarith
  · rintro ⟨hlow, hhigh⟩
    have hfloor := Int.floor_le (x + 1 / 2)
    have hlt := Int.lt_floor_add_one (x + 1 / 2)
    have hge : -2 ^ 63 ≤ ⌊x + 1 / 2⌋ := Int.le_floor.2 (by push_cast; linarith)
    by_cases hsigned : ⌊x + 1 / 2⌋ < 2 ^ 63
    · rw [Clock.clampSigned_of_signed ⟨hge, hsigned⟩]
      constructor <;> linarith
    · -- only the upper end itself, a half between two whole numbers, is rounded out of the range
      have hover : 2 ^ 63 ≤ ⌊x + 1 / 2⌋ := not_lt.1 hsigned
      have hcast : (2 ^ 63 : F) ≤ ⌊x + 1 / 2⌋ := by exact_mod_cast hover
      have hx : x = 2 ^ 63 - 1 / 2 := le_antisymm hhigh (by linarith)
      rw [Clock.clampSigned_of_le hover, hx]
      norm_num

theorem toTime_ofTime_sub {ce : ClockEstimate F} (hf : 0 < ce.freq) (t : F) :
    ce.toTime (ce.ofTime t) - t = (Clock.clampSigned ⌊ce.count t + 1 / 2⌋ - ce.count t) / ce.freq := by
  rw [ofTime_eq, toTime_eq, Clock.diff_shift (Clock.signed_clampSigned _), eq_div_iff hf.ne', count]
  field_simp
  ring

/-- Readings and host times convert into each other. Every reading comes back from its host time. On the
way round the counter, from `2 ^ 63` ticks behind the reference point to the last one that is ahead of it
rather than behind, host times increase. And a host time comes back from the reading nearest to it up to
half a tick, exactly as long as the ticks to it round to 63 bits and a sign. -/
theorem converts_back (ce : ClockEstimate F) (hf : 0 < ce.freq) :
    (∀ clock, ce.ofTime (ce.toTime clock) = clock) ∧
    (∀ m n : Int, -2 ^ 63 ≤ m → m < n → n < 2 ^ 63 →
      ce.toTime (Clock.shift ce.refClock m) < ce.toTime (Clock.shift ce.refClock n)) ∧
    ∀ t, |ce.toTime (ce.ofTime t) - t| ≤ 1 / 2 / ce.freq ↔
      -2 ^ 63 - 1 / 2 ≤ (t - ce.refTime) * ce.freq ∧ (t - ce.refTime) * ce.freq ≤ 2 ^ 63 - 1 / 2 := by
  refine ⟨ofTime_toTime hf, fun m n hm hmn hn => ?_, fun t => ?_⟩
  · rw [toTime_lt_toTime hf, Clock.diff_shift ⟨hm, hmn.trans hn⟩, Clock.diff_shift ⟨hm.trans hmn.le, hn⟩]
    exact hmn
  · rw [toTime_ofTime_sub hf, abs_div, abs_of_pos hf, div_le_div_iff_of_pos_right hf]
    exact abs_clampSigned_sub_le (ce.count t)

/-- A clock whose counter ends ten ticks behind its reference point. -/
def beforeWrap : ClockEstimate ℚ := .ofReference (2 ^ 64 - 10) 5 1000

theorem converts_back_beforeWrap : 0 < beforeWrap.freq ∧
    beforeWrap.ofTime (beforeWrap.toTime 20) = 20 ∧
    beforeWrap.toTime (2 ^ 64 - 1) < beforeWrap.toTime 3 ∧
    |beforeWrap.toTime (beforeWrap.ofTime 5.0123) - 5.0123| ≤ 1 / 2 / beforeWrap.freq := by
  have hf : 0 < beforeWrap.freq := by decide
  obtain ⟨hback, hlt, hnear⟩ := converts_back beforeWrap hf
  have hlast : Clock.shift beforeWrap.refClock 9 = 2 ^ 64 - 1 := by decide +kernel
  have hfirst : Clock.shift beforeWrap.refClock 13 = 3 := by decide +kernel
  refine ⟨hf, hback 20, ?_, (hnear 5.0123).2 ?_⟩
  · rw [← hlast, ← hfirst]
    exact hlt 9 13 (by decide) (by decide) (by decide)
  · simp only [beforeWrap, ofReference]
    norm_num

end ClockEstimate

end PrinterMotion
