import RuleAdvisor.Proofs.Number.Carrier

/-!
Carriers whose finite values are ordered as numbers are. This is all that a check of finite values
relies on, so it decides alike on each of them: on the rationals, and also where a difference is
rounded, as rounding moves it to the other side neither of zero nor of any bound it is compared
with.
-/

namespace RuleAdvisor

/-- Of two finite values one is at most the other. Their difference is above zero if the greater
comes first, and it can be compared with every finite value, though it may not be finite itself. -/
class FiniteOrder (α : Type) [Number α] : Prop where
  isFinite_zero : Number.isFinite (0 : α) = true
  not_lt_iff {x y : α} (first : Number.isFinite x = true) (second : Number.isFinite y = true) :
    ¬ x < y ↔ y ≤ x
  le_refl {x : α} (finite : Number.isFinite x = true) : x ≤ x
  le_trans {x y z : α} (first : Number.isFinite x = true) (second : Number.isFinite y = true)
    (third : Number.isFinite z = true) : x ≤ y → y ≤ z → x ≤ z
  beq_iff {x y : α} (first : Number.isFinite x = true) (second : Number.isFinite y = true) :
    (x == y) = true ↔ x ≤ y ∧ y ≤ x
  sub_pos {x y : α} (first : Number.isFinite x = true) (second : Number.isFinite y = true) :
    x < y → 0 < y - x
  not_sub_lt_iff {x y z : α} (first : Number.isFinite x = true)
    (second : Number.isFinite y = true) (third : Number.isFinite z = true) :
    ¬ y - x < z ↔ z ≤ y - x

instance (priority := low) {α : Type} [Number α] [RationalCarrier α] : FiniteOrder α where
  isFinite_zero := by
    rw [RationalCarrier.zero_eq]
    exact RationalCarrier.isFinite_ofRat 0
  not_lt_iff first second := by
    obtain ⟨p, rfl⟩ := (RationalCarrier.isFinite_iff _).mp first
    obtain ⟨q, rfl⟩ := (RationalCarrier.isFinite_iff _).mp second
    simp
  le_refl finite := by
    obtain ⟨p, rfl⟩ := (RationalCarrier.isFinite_iff _).mp finite
    simp
  le_trans first second third := by
    obtain ⟨p, rfl⟩ := (RationalCarrier.isFinite_iff _).mp first
    obtain ⟨q, rfl⟩ := (RationalCarrier.isFinite_iff _).mp second
    obtain ⟨r, rfl⟩ := (RationalCarrier.isFinite_iff _).mp third
    simpa using fun below above => below.trans above
  beq_iff first second := by
    obtain ⟨p, rfl⟩ := (RationalCarrier.isFinite_iff _).mp first
    obtain ⟨q, rfl⟩ := (RationalCarrier.isFinite_iff _).mp second
    rw [RationalCarrier.ofRat_beq, decide_eq_true_iff, RationalCarrier.ofRat_le,
      RationalCarrier.ofRat_le, le_antisymm_iff]
  sub_pos first second := by
    obtain ⟨p, rfl⟩ := (RationalCarrier.isFinite_iff _).mp first
    obtain ⟨q, rfl⟩ := (RationalCarrier.isFinite_iff _).mp second
    simp [RationalCarrier.zero_eq]
  not_sub_lt_iff first second third := by
    obtain ⟨p, rfl⟩ := (RationalCarrier.isFinite_iff _).mp first
    obtain ⟨q, rfl⟩ := (RationalCarrier.isFinite_iff _).mp second
    obtain ⟨r, rfl⟩ := (RationalCarrier.isFinite_iff _).mp third
    simp

/-- A carrier in which no value is missing, and no two finite values lie each below the other. -/
class Complete (α : Type) [Number α] : Prop extends FiniteOrder α where
  isGiven_eq (x : α) : Number.isGiven x = true
  not_lt_of_lt {x y : α} (first : Number.isFinite x = true) (second : Number.isFinite y = true) :
    x < y → ¬ y < x

instance : Complete Exact where
  isGiven_eq := Exact.isGiven_eq
  not_lt_of_lt _ _ := Exact.not_lt_of_lt

namespace FiniteOrder

variable {α : Type} [Number α] [FiniteOrder α] {x y : α}

theorem not_le_iff (first : Number.isFinite x = true) (second : Number.isFinite y = true) :
    ¬ x ≤ y ↔ y < x := by
  rw [← not_lt_iff second first, not_not]

theorem isNaN_eq (finite : Number.isFinite x = true) : Number.isNaN x = false := by
  rw [Number.isNaN, (beq_iff finite finite).mpr ⟨le_refl finite, le_refl finite⟩]
  rfl

section Range

variable {lower upper : α} (lowerFinite : Number.isFinite lower = true)
  (upperFinite : Number.isFinite upper = true) (ordered : lower ≤ upper)

include lowerFinite upperFinite ordered

theorem clamp_lower : Number.clamp lower lower upper = lower := by
  have notBelow := (not_lt_iff lowerFinite lowerFinite).mpr (le_refl lowerFinite)
  simp only [Number.clamp, isNaN_eq lowerFinite, notBelow, ite_self, Bool.false_eq_true, if_false,
    (not_lt_iff upperFinite lowerFinite).mpr ordered]

theorem clamp_upper : Number.clamp upper lower upper = upper := by
  have notAbove := (not_lt_iff upperFinite upperFinite).mpr (le_refl upperFinite)
  simp only [Number.clamp, isNaN_eq upperFinite, notAbove, Bool.false_eq_true, if_false,
    (not_lt_iff upperFinite lowerFinite).mpr ordered]

/-- Whatever was clamped, be it a number or not, is left alone from then on. -/
theorem clamp_clamp (x : α) :
    Number.clamp (Number.clamp x lower upper) lower upper = Number.clamp x lower upper := by
  by_cases undefined : Number.isNaN x = true
  · have first : Number.clamp x lower upper = lower := if_pos undefined
    rw [first, clamp_lower lowerFinite upperFinite ordered]
  · by_cases below : x < lower
    · have first : Number.clamp x lower upper = lower := by
        rw [Number.clamp, if_neg undefined, if_pos below]
      rw [first, clamp_lower lowerFinite upperFinite ordered]
    · by_cases above : upper < x
      · have first : Number.clamp x lower upper = upper := by
          rw [Number.clamp, if_neg undefined, if_neg below, if_pos above]
        rw [first, clamp_upper lowerFinite upperFinite ordered]
      · have first : Number.clamp x lower upper = x := by
          rw [Number.clamp, if_neg undefined, if_neg below, if_neg above]
        rw [first, first]

end Range
end FiniteOrder

theorem Complete.le_of_lt {α : Type} [Number α] [Complete α] {x y : α}
    (first : Number.isFinite x = true) (second : Number.isFinite y = true) (less : x < y) :
    x ≤ y :=
  (FiniteOrder.not_lt_iff second first).mp (Complete.not_lt_of_lt first second less)
end RuleAdvisor
