import RuleAdvisor.Fuzzy.WellFormed
import RuleAdvisor.Proofs.Number.Carrier

/-!
Degrees in well-formed shapes: at every rational they are at least 0 and at most 1, and no divisor
on the way to them is zero.
-/

namespace RuleAdvisor.Fuzzy

open Exact

def IsDegree (x : Exact) : Prop := 0 ≤ x ∧ x ≤ 1

theorem isDegree_rat (q : Rat) : IsDegree (rat q) ↔ 0 ≤ q ∧ q ≤ 1 := by
  simp [IsDegree]

theorem isDegree_iff (x : Exact) : IsDegree x ↔ ∃ q, x = rat q ∧ 0 ≤ q ∧ q ≤ 1 := by
  constructor
  · rintro ⟨nonnegative, atMostOne⟩
    rw [literal_eq] at nonnegative atMostOne
    simpa using exists_rat_of_between nonnegative atMostOne
  · rintro ⟨q, rfl, within⟩
    exact (isDegree_rat q).mpr within

theorem isDegree_zero : IsDegree 0 := by
  rw [literal_eq, isDegree_rat]
  norm_num

theorem isDegree_one : IsDegree 1 := by
  rw [literal_eq, isDegree_rat]
  norm_num

theorem IsDegree.least {x y : Exact} (first : IsDegree x) (second : IsDegree y) :
    IsDegree (Number.least x y) := by
  obtain ⟨p, rfl, nonnegative, atMostOne⟩ := (isDegree_iff x).mp first
  obtain ⟨q, rfl, alsoNonnegative, _⟩ := (isDegree_iff y).mp second
  rw [least_rat, isDegree_rat]
  exact ⟨le_min nonnegative alsoNonnegative, min_le_of_left_le atMostOne⟩

theorem IsDegree.complement {x : Exact} (degree : IsDegree x) : IsDegree (1 - x) := by
  obtain ⟨q, rfl, nonnegative, atMostOne⟩ := (isDegree_iff x).mp degree
  rw [literal_eq, rat_sub, isDegree_rat]
  constructor <;> push_cast <;> linarith

/-- A degree, or no number where a condition reads none. -/
def IsStrength (x : Exact) : Prop := x = nan ∨ IsDegree x

theorem IsDegree.isStrength {x : Exact} (degree : IsDegree x) : IsStrength x := .inr degree

theorem IsDegree.ne_nan {x : Exact} (degree : IsDegree x) : x ≠ nan := by
  obtain ⟨q, rfl, _⟩ := (isDegree_iff x).mp degree
  simp

theorem IsStrength.isDegree_iff {x : Exact} (strength : IsStrength x) :
    IsDegree x ↔ x ≠ nan :=
  ⟨IsDegree.ne_nan, strength.resolve_left⟩

theorem IsStrength.isDegree_of_pos {x : Exact} (strength : IsStrength x) (positive : 0 < x) :
    IsDegree x := strength.isDegree_iff.mpr (ne_nan_of_lt positive).2

theorem IsStrength.least {x y : Exact} (first : IsStrength x) (second : IsStrength y) :
    IsStrength (Number.least x y) := by
  rcases first with rfl | first
  · exact .inl (least_nan_left y)
  · rcases second with rfl | second
    · exact .inl (least_nan_right x)
    · exact .inr (first.least second)

theorem Shape.WellFormed.exists_breakpoints {shape : Shape Exact} (valid : shape.WellFormed) :
    (∃ a b c : Rat, shape = ⟨.triangular, [rat a, rat b, rat c]⟩ ∧ a ≤ b ∧ b ≤ c ∧ a < c)
      ∨ ∃ a b c d : Rat, shape = ⟨.trapezoidal, [rat a, rat b, rat c, rat d]⟩
        ∧ a ≤ b ∧ b ≤ c ∧ c ≤ d ∧ a < d := by
  obtain ⟨kind, points⟩ := shape
  obtain ⟨count, finite, ascending, first, last, isFirst, isLast, apart⟩ := valid
  obtain ⟨qs, rfl⟩ := RationalCarrier.exists_map_ofRat finite
  have length : qs.length = kind.breakpointCount := by simpa using count
  have ordered : qs.Pairwise (· ≤ ·) := by
    simpa only [List.pairwise_map, RationalCarrier.ofRat_le] using ascending
  cases kind with
  | triangular =>
      obtain ⟨a, b, c, rfl⟩ := List.length_eq_three.mp length
      obtain ⟨⟨ab, _⟩, bc⟩ : (a ≤ b ∧ a ≤ c) ∧ b ≤ c := by simpa using ordered
      cases isFirst
      cases isLast
      exact .inl ⟨a, b, c, rfl, ab, bc, (rat_lt a c).mp apart⟩
  | trapezoidal =>
      obtain ⟨a, b, c, d, rfl⟩ := List.length_eq_four.mp length
      obtain ⟨⟨ab, _⟩, ⟨bc, _⟩, cd⟩ : (a ≤ b ∧ a ≤ c ∧ a ≤ d) ∧ (b ≤ c ∧ b ≤ d) ∧ c ≤ d := by
        simpa using ordered
      cases isFirst
      cases isLast
      exact .inr ⟨a, b, c, d, rfl, ab, bc, cd, (rat_lt a d).mp apart⟩

theorem isDegree_ratio {p q : Rat} (nonnegative : 0 ≤ p) (positive : 0 < q) (fits : p ≤ q) :
    IsDegree (rat p / rat q) := by
  rw [rat_div p positive.ne', isDegree_rat]
  exact ⟨div_nonneg nonnegative positive.le, (div_le_one positive).mpr fits⟩

theorem lt_of_outside_top {b c x : Rat} (outsideTop : ¬ (b ≤ x ∧ x ≤ c)) (falling : ¬ x < b) :
    c < x := by
  by_contra below
  exact outsideTop ⟨not_lt.mp falling, not_lt.mp below⟩

/-- A triangle is a trapezoid whose top is one position, if values are equal that are in order both
ways; even beyond the breakpoints and where no number stands. -/
theorem triangle_eq_trapezoid {α : Type} [Number α]
    (ordered : ∀ x y : α, (x == y) = true ↔ y ≤ x ∧ x ≤ y) (a b c x : α) :
    triangle a b c x = trapezoid a b b c x := by
  simp only [triangle, trapezoid, ordered]

theorem trapezoid_isDegree {a b c d : Rat} (x : Rat) :
    IsDegree (trapezoid (rat a) (rat b) (rat c) (rat d) (rat x)) := by
  simp only [trapezoid, rat_lt, rat_le, rat_sub]
  split
  · exact isDegree_zero
  · next inside =>
      rw [not_or, not_lt, not_lt] at inside
      split
      · exact isDegree_one
      · next outsideTop =>
          split
          · next rising => exact isDegree_ratio (by linarith) (by linarith) (by linarith)
          · next falling =>
              have beyond := lt_of_outside_top outsideTop falling
              exact isDegree_ratio (by linarith) (by linarith) (by linarith)

theorem triangle_isDegree {a b c : Rat} (x : Rat) :
    IsDegree (triangle (rat a) (rat b) (rat c) (rat x)) := by
  rw [triangle_eq_trapezoid beq_iff_le]
  exact trapezoid_isDegree x

theorem Shape.WellFormed.isDegree {shape : Shape Exact} (valid : shape.WellFormed) (x : Rat) :
    IsDegree (shape.degree (rat x)) := by
  rcases valid.exists_breakpoints with
    ⟨a, b, c, rfl, _⟩ | ⟨a, b, c, d, rfl, _⟩
  · exact triangle_isDegree x
  · exact trapezoid_isDegree x

section Divisors

variable (byZero : Exact → Exact)

theorem trapezoid_answering {a b c d : Rat} (x : Rat) :
    @trapezoid Exact (answering byZero) (rat a) (rat b) (rat c) (rat d) (rat x)
      = trapezoid (rat a) (rat b) (rat c) (rat d) (rat x) := by
  -- The other division is found only when the definition is laid open.
  show (if rat x < rat a ∨ rat d < rat x then (0 : Exact)
    else if rat b ≤ rat x ∧ rat x ≤ rat c then 1
    else if rat x < rat b then
      @HDiv.hDiv _ _ _ (@instHDiv _ (answering byZero).toDiv) (rat x - rat a) (rat b - rat a)
    else @HDiv.hDiv _ _ _ (@instHDiv _ (answering byZero).toDiv) (rat d - rat x) (rat d - rat c))
      = _
  unfold trapezoid
  simp only [rat_lt, rat_le, rat_sub]
  split
  · rfl
  · next inside =>
      rw [not_or, not_lt, not_lt] at inside
      split
      · rfl
      · next outsideTop =>
          split
          · next rising => exact answering_ratio byZero _ (by linarith)
          · next falling =>
              have beyond := lt_of_outside_top outsideTop falling
              exact answering_ratio byZero _ (by linarith)

theorem triangle_answering {a b c : Rat} (x : Rat) :
    @triangle Exact (answering byZero) (rat a) (rat b) (rat c) (rat x)
      = triangle (rat a) (rat b) (rat c) (rat x) := by
  have other := @triangle_eq_trapezoid Exact (answering byZero) beq_iff_le
  rw [triangle_eq_trapezoid beq_iff_le, other]
  exact trapezoid_answering byZero x

theorem Shape.WellFormed.degree_answering {shape : Shape Exact} (valid : shape.WellFormed)
    (x : Rat) : @Shape.degree Exact (answering byZero) shape (rat x) = shape.degree (rat x) := by
  rcases valid.exists_breakpoints with ⟨a, b, c, rfl, _⟩ | ⟨a, b, c, d, rfl, _⟩
  · exact triangle_answering byZero x
  · exact trapezoid_answering byZero x

end Divisors
end RuleAdvisor.Fuzzy
