/-
Exact arithmetic in which some operations have no value: a quotient by zero, the root of a negative number. What is
computed from a missing value is missing too and compares with nothing. So where a rule of motion has a value here, it
divides by nothing that is zero, and a model that is out of its reach fails.
-/
import PrinterMotion.Proofs.Exact

namespace PrinterMotion

/-- A number of an exact field, or nothing. -/
inductive Partial (F : Type) where
  | missing
  | number (x : F)
deriving DecidableEq

namespace Partial

variable {F : Type} [Exact F]

/-- A function that has a value at some numbers only. -/
def bind (a : Partial F) (f : F → Partial F) : Partial F :=
  match a with
  | missing => missing
  | number x => f x

/-- Numbers are in their order, and nothing is less or more than what is missing. -/
def Lt : Partial F → Partial F → Prop
  | number x, number y => x < y
  | _, _ => False

/-- What is missing does not even compare with itself. -/
def Le : Partial F → Partial F → Prop
  | number x, number y => x ≤ y
  | _, _ => False

instance : DecidableRel (Lt (F := F))
  | number x, number y => inferInstanceAs (Decidable (x < y))
  | missing, _ => .isFalse id
  | number _, missing => .isFalse id

instance : DecidableRel (Le (F := F))
  | number x, number y => inferInstanceAs (Decidable (x ≤ y))
  | missing, _ => .isFalse id
  | number _, missing => .isFalse id

instance : Scalar (Partial F) where
  add a b := a.bind fun x => b.bind fun y => number (x + y)
  sub a b := a.bind fun x => b.bind fun y => number (x - y)
  mul a b := a.bind fun x => b.bind fun y => number (x * y)
  div a b := a.bind fun x => b.bind fun y => if y = 0 then missing else number (x / y)
  neg a := a.bind fun x => number (-x)
  lt := Lt
  le := Le
  beq
    | number x, number y => decide (x = y)
    | _, _ => false
  ofScientific m s e := number (OfScientific.ofScientific m s e)
  decLt a b := inferInstanceAs (Decidable (Lt a b))
  decLe a b := inferInstanceAs (Decidable (Le a b))
  totalLt
    | number x, number y => decide (x < y)
    | number _, missing => true
    | missing, _ => false
  ofInt n := number n
  floor
    | number x => ⌊x⌋
    | missing => 0
  scaledRound scale
    | number x => Scalar.scaledRound scale x
    | missing => 0
  sqrt a := a.bind fun x => if x < 0 then missing else number (Scalar.sqrt x)
  sin a := a.bind fun x => number (Scalar.sin x)
  cos a := a.bind fun x => number (Scalar.cos x)
  acos a := a.bind fun x => if |x| ≤ 1 then number (Scalar.acos x) else missing
  atan2 a b := a.bind fun y => b.bind fun x => number (Scalar.atan2 y x)
  exp a := a.bind fun x => number (Scalar.exp x)
  pow a b := a.bind fun x => b.bind fun y => if 0 < x then number (Scalar.pow x y) else missing
  pi := number Scalar.pi

variable {x y : F}

theorem number_lit (m : Nat) (s : Bool) (e : Nat) :
    (OfScientific.ofScientific m s e : Partial F) = number (OfScientific.ofScientific m s e) := rfl

theorem number_zero : (0.0 : Partial F) = number 0 := congrArg number Scalar.zero_literal

theorem number_one : (1.0 : Partial F) = number 1 := congrArg number Scalar.one_literal

@[simp] theorem number_add (x y : F) : number x + number y = number (x + y) := rfl

@[simp] theorem missing_add (a : Partial F) : missing + a = missing := rfl

@[simp] theorem number_sub (x y : F) : number x - number y = number (x - y) := rfl

@[simp] theorem missing_sub (a : Partial F) : missing - a = missing := rfl

@[simp] theorem number_mul (x y : F) : number x * number y = number (x * y) := rfl

@[simp] theorem number_neg (x : F) : -number x = number (-x) := rfl

theorem number_div (x : F) (h : y ≠ 0) : number x / number y = number (x / y) := if_neg h

@[simp] theorem number_div_zero (x : F) : number x / number 0 = missing := if_pos rfl

@[simp] theorem number_lt : number x < number y ↔ x < y := Iff.rfl

@[simp] theorem number_le : number x ≤ number y ↔ x ≤ y := Iff.rfl

@[simp] theorem number_beq : (number x == number y) = decide (x = y) := rfl

@[simp] theorem number_ofInt (n : Int) : (Scalar.ofInt n : Partial F) = number (n : F) := rfl

theorem number_sqrt (h : 0 ≤ x) : Scalar.sqrt (number x) = number (Scalar.sqrt x) := if_neg (not_lt.2 h)

@[simp] theorem number_exp (x : F) : Scalar.exp (number x) = number (Scalar.exp x) := rfl

theorem number_pow (h : 0 < x) (y : F) : Scalar.pow (number x) (number y) = number (Scalar.pow x y) := if_pos h

@[simp] theorem number_pi : (Scalar.pi : Partial F) = number Scalar.pi := rfl

/-- What compares is there. -/
theorem exists_of_le {a b : Partial F} (h : a ≤ b) : ∃ x y, a = number x ∧ b = number y ∧ x ≤ y := by
  cases a <;> cases b
  case number.number x y => exact ⟨x, y, rfl, rfl, h⟩
  all_goals exact h.elim

/-- What is finite is there. -/
theorem isFinite_iff {a : Partial F} : Scalar.isFinite a = true ↔ ∃ x, a = number x := by
  cases a with
  | missing => exact ⟨nofun, fun ⟨_, h⟩ => by cases h⟩
  | number x => simp [Scalar.isFinite, number_zero]

theorem sum_number : ∀ l : List F, Scalar.sum (l.map number) = number (Scalar.sum l) := by
  have step : ∀ (l : List F) (x : F), (l.map number).foldl (· + ·) (number x) = number (l.foldl (· + ·) x) := by
    intro l
    induction l with
    | nil => exact fun _ => rfl
    | cons y l ih => exact fun x => ih (x + y)
  exact fun l => step l 0.0

end Partial

/-! ## Sums of steps -/

namespace Scalar

/-- Laws of sums of whole multiples of a length that is there. They hold of exact fields, and also where operations
may have no value: what they are added to may be missing. -/
class Stepwise (α : Type) [Scalar α] : Prop where
  ofInt_one {d : α} : isFinite d = true → d * ofInt 1 = d
  neg_eq {d : α} : isFinite d = true → -d = d * ofInt (-1)
  add_zero {d : α} (a : α) : isFinite d = true → a + d * ofInt 0 = a
  add_add {d : α} (a : α) (m n : Int) : isFinite d = true → a + d * ofInt m + d * ofInt n = a + d * ofInt (m + n)
  sub_eq {d : α} (a : α) (n : Int) : isFinite d = true → a - d * ofInt n = a + d * ofInt (-n)
  double {d : α} (n : Int) : isFinite d = true → 2.0 * (d * ofInt n) = d * ofInt (2 * n)

instance (F : Type) [Exact F] : Stepwise F where
  ofInt_one _ := by simp
  neg_eq _ := by simp
  add_zero a _ := by simp
  add_add a m n _ := by
    simp only [ofInt_eq, Int.cast_add]
    ring
  sub_eq a n _ := by
    simp only [ofInt_eq, Int.cast_neg]
    ring
  double n _ := by
    simp only [ofInt_eq, Int.cast_mul, Int.cast_ofNat]
    norm_num
    ring

/-- The laws hold of numbers, and what is missing stays missing. -/
instance (F : Type) [Exact F] : Stepwise (Partial F) where
  ofInt_one h := by
    obtain ⟨d, rfl⟩ := Partial.isFinite_iff.1 h
    simp
  neg_eq h := by
    obtain ⟨d, rfl⟩ := Partial.isFinite_iff.1 h
    simp
  add_zero a h := by
    obtain ⟨d, rfl⟩ := Partial.isFinite_iff.1 h
    cases a <;> simp
  add_add a m n h := by
    obtain ⟨d, rfl⟩ := Partial.isFinite_iff.1 h
    cases a with
    | missing => rfl
    | number x => exact congrArg Partial.number (Stepwise.add_add x m n (isFinite_eq d))
  sub_eq a n h := by
    obtain ⟨d, rfl⟩ := Partial.isFinite_iff.1 h
    cases a with
    | missing => rfl
    | number x => exact congrArg Partial.number (Stepwise.sub_eq x n (isFinite_eq d))
  double n h := by
    obtain ⟨d, rfl⟩ := Partial.isFinite_iff.1 h
    exact congrArg Partial.number (Stepwise.double n (isFinite_eq d))

end Scalar

end PrinterMotion
