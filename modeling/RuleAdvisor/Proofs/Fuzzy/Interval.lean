import RuleAdvisor.Proofs.Fuzzy.Acceptance
import RuleAdvisor.Proofs.Fuzzy.Outline

/-!
Shapes as fuzzy intervals. A shape that passes validation is 1 on its top and nowhere else, 0
outside and at the feet of its slants, never falls before the end of its top, never rises after the
start of it, and is straight on both slants. A triangle is a trapezoid whose top is one position.
-/

namespace RuleAdvisor

namespace Exact

theorem rat_or_infinite {x : Exact} (number : x ≠ nan) :
    (∃ q, x = rat q) ∨ x = negInf ∨ x = posInf := by
  cases x with
  | rat q => exact .inl ⟨q, rfl⟩
  | negInf => exact .inr (.inl rfl)
  | posInf => exact .inr (.inr rfl)
  | nan => exact absurd rfl number

end Exact

namespace Fuzzy

open Exact

namespace Outline

variable {o : Outline}

theorem height_eq_one_iff (x : Rat) : o.height x = 1 ↔ o.b ≤ x ∧ x ≤ o.c := by
  have top : 1 ≤ o.height x ↔ o.b ≤ x ∧ x ≤ o.c := by
    simpa [corners] using le_height_iff (o := o) zero_lt_one le_rfl x
  rw [← top]
  exact ⟨ge_of_eq, fun atLeast => le_antisymm (o.height_within x).2 atLeast⟩

theorem height_eq_zero_iff (x : Rat) : o.height x = 0
    ↔ x < o.a ∨ o.d < x ∨ (x = o.a ∧ o.a < o.b) ∨ (x = o.d ∧ o.c < o.d) := by
  have rises := o.rises
  have level := o.level
  have falls := o.falls
  rcases o.region x with outside | ⟨slanted, lower, upper⟩ | ⟨lower, upper⟩ |
    ⟨slanted, lower, upper⟩
  · rw [height_of_outside outside]
    exact iff_of_true rfl (outside.imp id .inl)
  · rw [height_of_rising slanted lower upper, div_eq_zero_iff, sub_eq_zero, sub_eq_zero]
    grind
  · rw [height_of_top lower upper]
    grind
  · rw [height_of_falling slanted lower upper, div_eq_zero_iff, sub_eq_zero, sub_eq_zero]
    grind

theorem height_mono {x y : Rat} (before : x ≤ y) (rising : y ≤ o.c) :
    o.height x ≤ o.height y := by
  obtain ⟨nonneg, atMostOne⟩ := o.height_within x
  rcases nonneg.eq_or_lt with zero | positive
  · rw [← zero]
    exact (o.height_within y).1
  · obtain ⟨afterLeft, -⟩ := (le_height_iff positive atMostOne x).mp le_rfl
    obtain ⟨fromTop, -⟩ := o.rightCorner_within nonneg atMostOne
    exact (le_height_iff positive atMostOne y).mpr
      ⟨afterLeft.trans before, rising.trans fromTop⟩

theorem height_anti {x y : Rat} (falling : o.b ≤ x) (before : x ≤ y) :
    o.height y ≤ o.height x := by
  obtain ⟨nonneg, atMostOne⟩ := o.height_within y
  rcases nonneg.eq_or_lt with zero | positive
  · rw [← zero]
    exact (o.height_within x).1
  · obtain ⟨-, beforeRight⟩ := (le_height_iff positive atMostOne y).mp le_rfl
    obtain ⟨-, toTop⟩ := o.leftCorner_within nonneg atMostOne
    exact (le_height_iff positive atMostOne x).mpr
      ⟨toTop.trans falling, before.trans beforeRight⟩

theorem straight_rising (o : Outline) : Straight o.a o.b o.height :=
  straight_of_clear ⟨.inr le_rfl, .inl le_rfl, .inl o.level, .inl (o.level.trans o.falls),
    fun _ => le_rfl, fun _ => o.level.trans o.falls⟩

theorem straight_falling (o : Outline) : Straight o.c o.d o.height :=
  straight_of_clear ⟨.inr (o.rises.trans o.level), .inr o.level, .inr le_rfl, .inl le_rfl,
    fun _ => o.rises.trans o.level, fun _ => le_rfl⟩

end Outline

/-- A shape with breakpoints `a`, `b`, `c` and `d` as a normal fuzzy interval, at every rational
and at both infinities. -/
structure Shape.FuzzyInterval (shape : Shape Exact) (o : Outline) : Prop where
  /-- The result of a division by zero is not used for the degree. -/
  divided : ∀ x ≠ nan, ∀ byZero,
    @Shape.degree Exact (answering byZero) shape x = shape.degree x
  isDegree : ∀ x ≠ nan, IsDegree (shape.degree x)
  one_iff : ∀ x ≠ nan, shape.degree x = 1 ↔ rat o.b ≤ x ∧ x ≤ rat o.c
  zero_iff : ∀ x ≠ nan, shape.degree x = 0
    ↔ x < rat o.a ∨ rat o.d < x ∨ (x = rat o.a ∧ o.a < o.b) ∨ (x = rat o.d ∧ o.c < o.d)
  mono : ∀ x y, x ≤ y → y ≤ rat o.c → shape.degree x ≤ shape.degree y
  anti : ∀ x y, rat o.b ≤ x → x ≤ y → shape.degree y ≤ shape.degree x
  rising : ∃ start slope, ∀ x, o.a ≤ x → x ≤ o.b →
    shape.degree (rat x) = rat (start + slope * x)
  falling : ∃ start slope, ∀ x, o.c ≤ x → x ≤ o.d →
    shape.degree (rat x) = rat (start + slope * x)

namespace Shape.HasOutline

variable {shape : Shape Exact} {o : Outline} (outline : shape.HasOutline o) {x : Exact}

include outline

theorem degree_infinite (infinite : x = negInf ∨ x = posInf) : shape.degree x = 0 := by
  rcases outline with rfl | ⟨-, rfl⟩ <;> rcases infinite with rfl | rfl <;> rfl

theorem degree_infinite_answering (infinite : x = negInf ∨ x = posInf) (byZero : Exact → Exact) :
    @Shape.degree Exact (answering byZero) shape x = 0 := by
  rcases outline with rfl | ⟨-, rfl⟩ <;> rcases infinite with rfl | rfl <;> rfl

theorem isDegree_of_number (number : x ≠ nan) : IsDegree (shape.degree x) := by
  rcases rat_or_infinite number with ⟨q, rfl⟩ | infinite
  · exact outline.wellFormed.isDegree q
  · rw [outline.degree_infinite infinite]
    exact isDegree_zero

theorem degree_answering_of_number (number : x ≠ nan) (byZero : Exact → Exact) :
    @Shape.degree Exact (answering byZero) shape x = shape.degree x := by
  rcases rat_or_infinite number with ⟨q, rfl⟩ | infinite
  · exact outline.wellFormed.degree_answering byZero q
  · rw [outline.degree_infinite infinite, outline.degree_infinite_answering infinite]

theorem degree_eq_one_iff (number : x ≠ nan) :
    shape.degree x = 1 ↔ rat o.b ≤ x ∧ x ≤ rat o.c := by
  rcases rat_or_infinite number with ⟨q, rfl⟩ | infinite
  · rw [outline.degree, literal_eq, rat.injEq, Nat.cast_one, rat_le, rat_le,
      Outline.height_eq_one_iff]
  · rw [outline.degree_infinite infinite]
    apply iff_of_false (by simp)
    rcases infinite with rfl | rfl
    · exact fun onTop => Bool.false_ne_true onTop.1
    · exact fun onTop => Bool.false_ne_true onTop.2

theorem degree_eq_zero_iff (number : x ≠ nan) : shape.degree x = 0
    ↔ x < rat o.a ∨ rat o.d < x ∨ (x = rat o.a ∧ o.a < o.b) ∨ (x = rat o.d ∧ o.c < o.d) := by
  rcases rat_or_infinite number with ⟨q, rfl⟩ | infinite
  · rw [outline.degree, literal_eq, rat.injEq, Nat.cast_zero, rat_lt, rat_lt, rat.injEq,
      rat.injEq, Outline.height_eq_zero_iff]
  · apply iff_of_true (outline.degree_infinite infinite)
    rcases infinite with rfl | rfl
    · exact .inl rfl
    · exact .inr (.inl rfl)

theorem degree_mono {y : Exact} (before : x ≤ y) (rising : y ≤ rat o.c) :
    shape.degree x ≤ shape.degree y := by
  rcases rat_or_infinite (ne_nan_of_le before).1 with ⟨p, rfl⟩ | infinite
  · obtain ⟨q, rfl, below, toTop⟩ := exists_rat_of_between before rising
    rw [outline.degree, outline.degree, rat_le]
    exact Outline.height_mono below toTop
  · rw [outline.degree_infinite infinite]
    exact (outline.isDegree_of_number (ne_nan_of_le before).2).1

theorem degree_anti {y : Exact} (falling : rat o.b ≤ x) (before : x ≤ y) :
    shape.degree y ≤ shape.degree x := by
  rcases rat_or_infinite (ne_nan_of_le before).2 with ⟨q, rfl⟩ | infinite
  · obtain ⟨p, rfl, fromTop, below⟩ := exists_rat_of_between falling before
    rw [outline.degree, outline.degree, rat_le]
    exact Outline.height_anti fromTop below
  · rw [outline.degree_infinite infinite]
    exact (outline.isDegree_of_number (ne_nan_of_le before).1).1

theorem degree_straight {p q : Rat} (straight : Straight p q o.height) :
    ∃ start slope, ∀ x, p ≤ x → x ≤ q → shape.degree (rat x) = rat (start + slope * x) := by
  obtain ⟨start, slope, onLine⟩ := straight
  refine ⟨start, slope, fun x lower upper => ?_⟩
  rw [outline.degree, onLine x lower upper]

theorem fuzzyInterval : shape.FuzzyInterval o where
  divided _ number byZero := outline.degree_answering_of_number number byZero
  isDegree _ number := outline.isDegree_of_number number
  one_iff _ number := outline.degree_eq_one_iff number
  zero_iff _ number := outline.degree_eq_zero_iff number
  mono _ _ before rising := outline.degree_mono before rising
  anti _ _ falling before := outline.degree_anti falling before
  rising := outline.degree_straight o.straight_rising
  falling := outline.degree_straight o.straight_falling

end Shape.HasOutline

/-- A shape that passes validation is a normal fuzzy interval over its breakpoints, whatever the
domain it is checked for, and a triangle has the degrees of the trapezoid with both ends of its top
at the peak. -/
theorem Shape.fuzzyInterval_of_accepted {shape : Shape Exact} {domain : Domain Exact}
    {field : String} (accepted : isUsable (shape.issues domain field) = true) :
    (∃ o, shape.HasOutline o ∧ shape.FuzzyInterval o)
      ∧ ∀ a b c x : Exact, (⟨.triangular, [a, b, c]⟩ : Shape Exact).degree x
        = (⟨.trapezoidal, [a, b, b, c]⟩ : Shape Exact).degree x := by
  have valid := (Shape.isUsable_issues_iff shape domain field).mp accepted
  obtain ⟨o, outline⟩ := valid.exists_outline
  exact ⟨⟨o, outline, outline.fuzzyInterval⟩, triangle_eq_trapezoid beq_iff_le⟩

/-- A shape that starts on its top, outside the domain it is checked for. -/
theorem Shape.fuzzyInterval_of_accepted_shoulder :
    isUsable ((⟨.trapezoidal, [0, 0, 20, 40]⟩ : Shape Exact).issues ⟨10, 30⟩ "dry") = true
      ∧ (∃ o, (⟨.trapezoidal, [0, 0, 20, 40]⟩ : Shape Exact).HasOutline o
        ∧ (⟨.trapezoidal, [0, 0, 20, 40]⟩ : Shape Exact).FuzzyInterval o)
      ∧ ∀ a b c x : Exact, (⟨.triangular, [a, b, c]⟩ : Shape Exact).degree x
        = (⟨.trapezoidal, [a, b, b, c]⟩ : Shape Exact).degree x := by
  have accepted : isUsable
      ((⟨.trapezoidal, [0, 0, 20, 40]⟩ : Shape Exact).issues ⟨10, 30⟩ "dry") = true := by
    decide +kernel
  exact ⟨accepted, Shape.fuzzyInterval_of_accepted accepted⟩

end Fuzzy
end RuleAdvisor
