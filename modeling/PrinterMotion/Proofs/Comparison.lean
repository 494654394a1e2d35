/-
How numbers compare where there may be missing ones and zero may have two signs. These laws hold of
binary64 as they do of exact fields, so what rests on them alone needs no exact arithmetic.
-/
import PrinterMotion.Proofs.Exact

namespace PrinterMotion.Scalar

/-- Laws of comparison for numbers that may be missing. A missing number compares with nothing. -/
class Lawful (α : Type) [Scalar α] : Prop where
  isNumber_of_le {a b : α} : a ≤ b → isNumber a = true ∧ isNumber b = true
  le_self {a : α} : isNumber a = true → a ≤ a
  le_of_lt {a b : α} : a < b → a ≤ b
  le_of_not_lt {a b : α} : isNumber a = true → isNumber b = true → ¬a < b → b ≤ a
  le_trans {a b c : α} : a ≤ b → b ≤ c → a ≤ c
  lt_of_le {a b : α} : a ≤ b → (a == b) = false → a < b
  beq_of_lt {a b : α} : a < b → (a == b) = false
  beq_symm {a b : α} : (a == b) = true → (b == a) = true
  beq_trans {a b c : α} : (a == b) = true → (b == c) = true → (a == c) = true
  le_of_beq {a b : α} : (a == b) = true → a ≤ b
  /-- Only zero has two signs. -/
  eq_of_beq {a b : α} : (a == b) = true → (a == (0.0 : α)) = false → a = b
  half_nonneg {a : α} : (0.0 : α) ≤ a → (0.0 : α) ≤ 0.5 * a
  zero_le_milli : (0.0 : α) ≤ 0.001

instance (F : Type) [Exact F] : Lawful F where
  isNumber_of_le _ := ⟨isNumber_eq _, isNumber_eq _⟩
  le_self _ := le_refl _
  le_of_lt := le_of_lt
  le_of_not_lt _ _ := not_lt.1
  le_trans := le_trans
  lt_of_le hle hne := lt_of_le_of_ne hle (beq_eq_false_iff_ne.1 hne)
  beq_of_lt h := beq_eq_false_iff_ne.2 h.ne
  beq_symm h := beq_iff_eq.2 (beq_iff_eq.1 h).symm
  beq_trans h h' := beq_iff_eq.2 ((beq_iff_eq.1 h).trans (beq_iff_eq.1 h'))
  le_of_beq h := (beq_iff_eq.1 h).le
  eq_of_beq h _ := beq_iff_eq.1 h
  half_nonneg h := by
    rw [zero_literal] at h ⊢
    exact mul_nonneg (by norm_num) h
  zero_le_milli := by norm_num

variable {α : Type} [Scalar α] [Lawful α] {a b : α}

theorem isNumber_zero : isNumber (0.0 : α) = true := (Lawful.isNumber_of_le Lawful.zero_le_milli).1

theorem beq_zero_congr (h : (a == b) = true) : (a == (0.0 : α)) = (b == (0.0 : α)) :=
  Bool.eq_iff_iff.2 ⟨Lawful.beq_trans (Lawful.beq_symm h), Lawful.beq_trans h⟩

/-! ## Largest numbers -/

theorem max_spec (ha : isNumber a = true) (hb : isNumber b = true) :
    a ≤ Scalar.max a b ∧ b ≤ Scalar.max a b ∧ (Scalar.max a b = a ∨ Scalar.max a b = b) := by
  unfold Scalar.max
  by_cases hab : a < b
  · rw [if_pos hab]
    exact ⟨Lawful.le_of_lt hab, Lawful.le_self hb, .inr rfl⟩
  · rw [if_neg hab, if_pos ha]
    exact ⟨Lawful.le_self ha, Lawful.le_of_not_lt ha hb hab, .inl rfl⟩

/-- Nothing is missing where something is compared with zero, and a missing number yields to zero. -/
theorem le_max_of_le (h : (0.0 : α) ≤ a) (b : α) : (0.0 : α) ≤ Scalar.max a b := by
  unfold Scalar.max
  split
  · rename_i hab
    exact Lawful.le_trans h (Lawful.le_of_lt hab)
  · rw [if_pos (Lawful.isNumber_of_le h).2]
    exact h

/-- The largest of numbers is one of them, and none is larger. -/
theorem foldl_max_spec : ∀ (l : List α) (a : α), isNumber a = true → (∀ b ∈ l, isNumber b = true) →
    l.foldl Scalar.max a ∈ a :: l ∧ ∀ b ∈ a :: l, b ≤ l.foldl Scalar.max a
  | [], a, ha, _ => ⟨List.mem_cons_self, fun _ hb => by
      rw [List.mem_singleton.1 hb]
      exact Lawful.le_self ha⟩
  | c :: rest, a, ha, hl => by
    have hc := hl c List.mem_cons_self
    obtain ⟨hac, hcc, hone⟩ := max_spec ha hc
    obtain ⟨hmem, hle⟩ := foldl_max_spec rest (Scalar.max a c) (Lawful.isNumber_of_le hac).2
      fun b hb => hl b (List.mem_cons_of_mem c hb)
    have hmax := hle _ List.mem_cons_self
    rw [List.foldl_cons]
    refine ⟨?_, fun b hb => ?_⟩
    · rcases List.mem_cons.1 hmem with heq | hmem
      · rw [heq]
        rcases hone with hone | hone <;> simp [hone]
      · exact List.mem_cons_of_mem _ (List.mem_cons_of_mem _ hmem)
    · rcases List.mem_cons.1 hb with rfl | hb
      · exact Lawful.le_trans hac hmax
      · rcases List.mem_cons.1 hb with rfl | hb
        · exact Lawful.le_trans hcc hmax
        · exact hle b (List.mem_cons_of_mem _ hb)

end PrinterMotion.Scalar
