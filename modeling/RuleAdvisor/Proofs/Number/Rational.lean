import Mathlib.Data.Rat.Floor
import Mathlib.Tactic.Linarith
import RuleAdvisor.Number.Exact

/-!
Operations on exact values that are rational, one equation each, so that a computation on finite
values can be read as one on rationals. A value is finite exactly if it is rational, and a value
that lies between two rationals is one. All values that are numbers stand in one line. To tell that
no result of a division by zero is used, such a division can be given any other answer.
-/

namespace RuleAdvisor.Exact

@[simp] theorem literal_eq (n : Nat) : (OfNat.ofNat n : Exact) = rat n := by
  show rat (n * 10 ^ 0) = rat n
  simp

theorem rat_pos (q : Rat) : 0 < rat q ↔ 0 < q := by
  rw [literal_eq, rat_lt, Nat.cast_zero]

@[simp] theorem half_eq : (0.5 : Exact) = rat (1 / 2) := by
  show rat (((5 : Nat) : Rat) / 10 ^ 1) = rat (1 / 2)
  norm_num

@[simp] theorem floor_rat (q : Rat) : Number.floor (rat q) = rat ⌊q⌋ := rfl

@[simp] theorem ceil_rat (q : Rat) : Number.ceil (rat q) = rat ⌈q⌉ := by
  show rat (Rat.ceil q) = rat ⌈q⌉
  rw [Rat.ceil_eq_neg_floor_neg]
  rfl

@[simp] theorem least_rat (p q : Rat) : Number.least (rat p) (rat q) = rat (min p q) := by
  show (if rat p = nan ∨ rat q = nan then nan
    else if decide (q < p) = true then rat q else rat p) = rat (min p q)
  by_cases less : q < p
  · simp [less, min_eq_right less.le]
  · simp [less, min_eq_left (not_lt.mp less)]

@[simp] theorem least_nan_left (x : Exact) : Number.least nan x = nan := rfl

@[simp] theorem least_nan_right (x : Exact) : Number.least x nan = nan := by
  cases x <;> rfl

@[simp] theorem least_posInf_left (x : Exact) : Number.least posInf x = x := by
  cases x <;> rfl

@[simp] theorem least_posInf_right (x : Exact) : Number.least x posInf = x := by
  cases x <;> rfl

@[simp] theorem least_negInf_left {x : Exact} (number : x ≠ nan) :
    Number.least negInf x = negInf := by
  cases x with
  | nan => exact absurd rfl number
  | _ => rfl

@[simp] theorem least_negInf_right {x : Exact} (number : x ≠ nan) :
    Number.least x negInf = negInf := by
  cases x with
  | nan => exact absurd rfl number
  | _ => rfl

theorem least_right_comm (x y z : Exact) :
    Number.least (Number.least x y) z = Number.least (Number.least x z) y := by
  cases x <;> cases y <;> cases z <;> simp [min_comm, min_left_comm]

theorem least_pos {x y : Exact} (first : 0 < x) (second : 0 < y) : 0 < Number.least x y := by
  show 0 < (if x = nan ∨ y = nan then nan else if below y x = true then y else x)
  split
  · next lacking =>
      rcases lacking with rfl | rfl
      · exact first
      · exact second
  · split
    · exact second
    · exact first

theorem notANumber_eq : (Number.notANumber : Exact) = nan := by
  rw [Number.notANumber, literal_eq]
  rfl

@[simp] theorem isFinite_rat (q : Rat) : Number.isFinite (rat q) = true := rfl

@[simp] theorem isGiven_eq (x : Exact) : Number.isGiven x = true := rfl

@[simp] theorem isNaN_rat (q : Rat) : Number.isNaN (rat q) = false := by
  simp [Number.isNaN]

theorem eq_of_beq_rat {x : Exact} {q : Rat} (same : (x == rat q) = true) : x = rat q := by
  cases x with
  | rat p => rw [of_decide_eq_true same]
  | _ => cases same

theorem beq_iff_le (x y : Exact) : (x == y) = true ↔ y ≤ x ∧ x ≤ y := by
  show same x y = true ↔ (below y x || same y x) = true ∧ (below x y || same x y) = true
  cases x with
  | rat p =>
      cases y with
      | rat q =>
          have bothWays : p = q ↔ (q < p ∨ q = p) ∧ (p < q ∨ p = q) := by
            rw [← le_iff_lt_or_eq, ← le_iff_lt_or_eq, and_comm, ← le_antisymm_iff]
          simpa [below, same] using bothWays
      | _ => simp [below, same]
  | _ => cases y <;> simp [below, same]

theorem isFinite_iff (x : Exact) : Number.isFinite x = true ↔ ∃ q, x = rat q := by
  cases x with
  | rat q => simp
  | _ => simp [Number.isFinite]

/-- No infinity lies between two rationals, and what is no number lies nowhere. -/
theorem exists_rat_of_between {p r : Rat} {x : Exact} (above : rat p ≤ x) (below : x ≤ rat r) :
    ∃ q, x = rat q ∧ p ≤ q ∧ q ≤ r := by
  cases x with
  | rat q => exact ⟨q, rfl, (rat_le p q).mp above, (rat_le q r).mp below⟩
  | posInf => exact absurd below Bool.false_ne_true
  | negInf => exact absurd above Bool.false_ne_true
  | nan => exact absurd above Bool.false_ne_true

theorem not_lt_self (x : Exact) : ¬ x < x := by
  cases x with
  | rat q => simp
  | _ => exact Bool.false_ne_true

theorem ne_nan_of_lt {x y : Exact} (less : x < y) : x ≠ nan ∧ y ≠ nan := by
  constructor
  · rintro rfl
    exact Bool.false_ne_true less
  · rintro rfl
    cases x <;> exact Bool.false_ne_true less

theorem ne_nan_of_le {x y : Exact} (atMost : x ≤ y) : x ≠ nan ∧ y ≠ nan := by
  constructor
  · rintro rfl
    exact Bool.false_ne_true atMost
  · rintro rfl
    cases x <;> exact Bool.false_ne_true atMost

theorem not_lt_of_lt {x y : Exact} (less : x < y) : ¬ y < x := by
  cases x with
  | rat p =>
      cases y with
      | rat q =>
          rw [rat_lt] at less ⊢
          exact not_lt.mpr less.le
      | _ => first | exact Bool.false_ne_true | exact absurd less Bool.false_ne_true
  | _ => cases y <;> first | exact Bool.false_ne_true | exact absurd less Bool.false_ne_true

theorem le_of_below {x y : Exact} (less : x < y) : x ≤ y := Bool.or_eq_true_iff.mpr (.inl less)

theorem not_le_of_below {x y : Exact} (less : x < y) : ¬ y ≤ x := by
  intro atMost
  rcases Bool.or_eq_true_iff.mp atMost with above | same
  · exact not_lt_of_lt less above
  · cases x with
    | rat p =>
        cases y with
        | rat q => exact absurd (decide_eq_true_iff.mp same) ((rat_lt p q).mp less).ne'
        | _ => exact Bool.false_ne_true same
    | _ => cases y <;> first | exact Bool.false_ne_true same | exact Bool.false_ne_true less

theorem lt_or_lt_of_lt {x y z : Exact} (number : y ≠ nan) (less : x < z) : x < y ∨ y < z := by
  cases y with
  | nan => exact absurd rfl number
  | posInf =>
      cases x with
      | rat _ | negInf => exact .inl rfl
      | posInf | nan => cases z <;> exact absurd less Bool.false_ne_true
  | negInf =>
      cases z with
      | rat _ | posInf => exact .inr rfl
      | negInf | nan => cases x <;> exact absurd less Bool.false_ne_true
  | rat q =>
      cases x with
      | negInf => exact .inl rfl
      | posInf | nan => cases z <;> exact absurd less Bool.false_ne_true
      | rat p =>
          cases z with
          | posInf => exact .inr rfl
          | negInf | nan => exact absurd less Bool.false_ne_true
          | rat r =>
              rw [rat_lt] at less
              rw [rat_lt, rat_lt]
              exact (lt_or_ge p q).imp_right fun above => above.trans_lt less

theorem eq_of_not_lt {x y : Exact} (first : x ≠ nan) (second : y ≠ nan) (notBelow : ¬ x < y)
    (notAbove : ¬ y < x) : x = y := by
  cases x with
  | nan => exact absurd rfl first
  | rat p =>
      cases y with
      | nan => exact absurd rfl second
      | rat q =>
          rw [rat_lt] at notBelow notAbove
          rw [le_antisymm (not_lt.mp notAbove) (not_lt.mp notBelow)]
      | posInf => exact absurd rfl notBelow
      | negInf => exact absurd rfl notAbove
  | posInf =>
      cases y with
      | nan => exact absurd rfl second
      | posInf => rfl
      | rat _ | negInf => exact absurd rfl notAbove
  | negInf =>
      cases y with
      | nan => exact absurd rfl second
      | negInf => rfl
      | rat _ | posInf => exact absurd rfl notBelow

theorem le_of_not_lt {x y : Exact} (first : x ≠ nan) (second : y ≠ nan) (notAbove : ¬ y < x) :
    x ≤ y := by
  by_cases below : x < y
  · exact le_of_below below
  · rw [eq_of_not_lt first second below notAbove]
    cases y with
    | rat q => simp
    | nan => exact absurd rfl second
    | _ => rfl

theorem within_unit_iff (x : Exact) :
    0 ≤ x ∧ x < 1 ↔ ∃ r : Rat, x = rat r ∧ 0 ≤ r ∧ r < 1 := by
  constructor
  · rintro ⟨nonneg, below⟩
    have atMost := le_of_below below
    rw [literal_eq] at nonneg atMost
    obtain ⟨r, rfl, least, -⟩ := exists_rat_of_between nonneg atMost
    rw [literal_eq, rat_lt] at below
    exact ⟨r, rfl, by exact_mod_cast least, by exact_mod_cast below⟩
  · rintro ⟨r, rfl, nonneg, below⟩
    rw [literal_eq, literal_eq, rat_le, rat_lt]
    exact ⟨by exact_mod_cast nonneg, by exact_mod_cast below⟩

@[simp] theorem isInteger_int (n : Int) : Number.isInteger (rat n) = true := by
  simp [Number.isInteger]

theorem isInteger_iff (x : Exact) : Number.isInteger x = true ↔ ∃ n : Int, x = rat n := by
  constructor
  · intro whole
    obtain ⟨finite, same⟩ := Bool.and_eq_true_iff.mp whole
    obtain ⟨q, rfl⟩ := (isFinite_iff x).mp finite
    have atFloor : (⌊q⌋ : Rat) = q := by simpa using same
    exact ⟨⌊q⌋, congrArg rat atFloor.symm⟩
  · rintro ⟨n, rfl⟩
    exact isInteger_int n

theorem isMultiple_int (m n : Int) (nonzero : n ≠ 0) :
    Number.isMultiple (rat m) (rat n) = true ↔ n ∣ m := by
  have divisor : (n : Rat) ≠ 0 := Int.cast_ne_zero.mpr nonzero
  show ((n : Rat) != 0 && ((m : Rat) / n).isInt) = true ↔ n ∣ m
  simp only [bne_iff_ne, ne_eq, divisor, not_false_eq_true, Bool.and_eq_true, true_and]
  constructor
  -- The quotient, being an integer, is its own numerator.
  · intro whole
    have quotient : ((((m : Rat) / n).num : Int) : Rat) = m / n :=
      (Rat.eq_num_of_isInt whole).symm
    refine ⟨((m : Rat) / n).num, ?_⟩
    have product : (m : Rat) = n * ((m : Rat) / n).num := by
      rw [quotient, mul_div_cancel₀ _ divisor]
    exact_mod_cast product
  · rintro ⟨k, rfl⟩
    rw [Int.cast_mul, mul_div_cancel_left₀ _ divisor]
    rfl

theorem steps_int (n : Int) (nonnegative : 0 ≤ n) :
    Number.steps (rat n) = some (n.toNat + 1) := by
  have notBelow : ¬ ((n : Rat) < 0) := by exact_mod_cast not_lt.mpr nonnegative
  show some (if (n : Rat) < 0 then 0 else (Rat.floor n).toNat + 1) = some (n.toNat + 1)
  rw [if_neg notBelow, Rat.floor_intCast]

theorem clamp_between (x : Exact) {p r : Rat} (ordered : p ≤ r) :
    ∃ q, Number.clamp x (rat p) (rat r) = rat q ∧ p ≤ q ∧ q ≤ r := by
  unfold Number.clamp
  split
  · exact ⟨p, rfl, le_refl p, ordered⟩
  · next isNumber =>
      split
      · exact ⟨p, rfl, le_refl p, ordered⟩
      · next notBelow =>
          split
          · exact ⟨r, rfl, ordered, le_refl r⟩
          · next notAbove =>
              -- The infinities are beyond every bound, so what is left is rational.
              cases x with
              | rat q =>
                  rw [rat_lt] at notBelow notAbove
                  exact ⟨q, rfl, not_lt.mp notBelow, not_lt.mp notAbove⟩
              | posInf => exact absurd rfl notAbove
              | negInf => exact absurd rfl notBelow
              | nan => exact absurd rfl isNumber

/-- The exact values, with another answer wherever the divisor is zero. A computation that gives the
same result whatever that answer is uses the result of no division by zero; one that divides by zero
and drops what it gets is not told apart from one that does not divide. -/
@[reducible] def answering (byZero : Exact → Exact) : Number Exact :=
  { (inferInstance : Number Exact) with
    div := fun x y => if y = rat 0 then byZero x else x / y }

theorem answering_div (byZero : Exact → Exact) (x : Exact) {y : Exact} (nonzero : y ≠ rat 0) :
    @HDiv.hDiv Exact Exact Exact (@instHDiv Exact (answering byZero).toDiv) x y = x / y :=
  if_neg nonzero

theorem answering_ratio (byZero : Exact → Exact) (p : Rat) {q : Rat} (nonzero : q ≠ 0) :
    @HDiv.hDiv Exact Exact Exact (@instHDiv Exact (answering byZero).toDiv) (rat p) (rat q)
      = rat p / rat q :=
  answering_div byZero _ fun zero => nonzero (rat.inj zero)

end RuleAdvisor.Exact
