import RuleAdvisor.Number.Entry
import RuleAdvisor.Proofs.Number.Integral

/-!
Carriers that compute with integers as if nothing was rounded, as long as the results are small.
Rationals are such a carrier and so are doubles, with or without missing entries. What is shown of
small integers on all of them therefore holds of the doubles that are computed with.
-/

namespace RuleAdvisor

open Exact (rat nan)

/-- Every value stands for a number or for none, and is compared as what it stands for. -/
class IntegerCarrier (α : Type) [Number α] where
  value : α → Exact
  /-- Integers that are no result of rounding. -/
  Small : Int → Prop
  small_of_abs_le {n : Int} : |n| ≤ 2 ^ 53 → Small n
  small_of_small {m n : Int} : Small m → |n| ≤ |m| → Small n
  isFinite_eq (x : α) : Number.isFinite x = Number.isFinite (value x)
  isInteger_eq (x : α) : Number.isInteger x = Number.isInteger (value x)
  lt_iff (x y : α) : x < y ↔ value x < value y
  le_iff (x y : α) : x ≤ y ↔ value x ≤ value y
  beq_iff {x y : α} {m n : Int} : value x = rat m → value y = rat n → ((x == y) = true ↔ m = n)
  /-- Only 0 has a sign that its value does not tell. -/
  eq_of_value_eq {x y : α} {n : Int} : n ≠ 0 → value x = rat n → value y = rat n → x = y
  value_ofNat {n : Nat} : n ≤ 2 ^ 53 → value (Number.ofNat n) = rat n
  value_notANumber : value Number.notANumber = nan
  value_least (x y : α) : value (Number.least x y) = Number.least (value x) (value y)
  value_floor {x : α} {p : Rat} : value x = rat p → value (Number.floor x) = rat ⌊p⌋
  value_ceil {x : α} {p : Rat} : value x = rat p → value (Number.ceil x) = rat ⌈p⌉
  value_add {x y : α} {m n : Int} : value x = rat m → value y = rat n → Small (m + n) →
    value (x + y) = rat (m + n : Int)
  value_sub {x y : α} {m n : Int} : value x = rat m → value y = rat n → Small (m - n) →
    value (x - y) = rat (m - n : Int)
  value_mul {x y : α} {m n : Int} : value x = rat m → value y = rat n → Small (m * n) →
    value (x * y) = rat (m * n : Int)
  value_add_nan {x y : α} : value x = nan ∨ value y = nan → value (x + y) = nan
  value_sub_nan {x y : α} : value x = nan ∨ value y = nan → value (x - y) = nan
  value_mul_nan {x y : α} : value x = nan ∨ value y = nan → value (x * y) = nan
  value_floor_nan {x : α} : value x = nan → value (Number.floor x) = nan
  /-- A difference below zero may be rounded, but stays below zero. -/
  sub_neg {x y : α} {m n : Int} : value x = rat m → value y = rat n → m < n → value (x - y) < 0
  isMultiple_iff {x y : α} {m n : Int} : value x = rat m → value y = rat n → n ≠ 0 →
    (Number.isMultiple x y = true ↔ n ∣ m)
  /-- A quotient by at most 101 may be rounded, but not past an integer. -/
  exists_quotient {x y : α} {m n : Int} : value x = rat m → value y = rat n → 0 < m → Small m →
    2 ≤ n → n ≤ 101 → ∃ v, value (x / y) = rat v ∧ ⌈v⌉ = ⌈(m : Rat) / n⌉
  /-- A share below 1 of a natural number may be rounded, but not up to that number. -/
  exists_share {x most : α} {p : Rat} {n : Nat} : value x = rat p → 0 ≤ p → p < 1 →
    value most = rat n → 0 < n → n < 2 ^ 52 → ∃ v, value (x * most) = rat v ∧ 0 ≤ v ∧ v < n
  steps_eq {x : α} {n : Nat} : value x = rat n → n < powerOfTwo 53 →
    Number.steps x = some (n + 1)

namespace IntegerCarrier

variable {α : Type} [Number α] [IntegerCarrier α]

@[reducible] def Stands (x : α) (n : Int) : Prop := value x = rat n

theorem stands_ofNat {n : Nat} (small : n ≤ 2 ^ 53) : Stands (Number.ofNat n : α) n := by
  rw [Stands, Int.cast_natCast]
  exact value_ofNat small

theorem stands_natural {n : Nat} (small : n ≤ 2 ^ 53) : Stands (OfNat.ofNat n : α) n :=
  stands_ofNat small

theorem stands_zero : Stands (0 : α) 0 := stands_natural (by decide)

theorem stands_one : Stands (1 : α) 1 := stands_natural (by decide)

theorem small_of_le {n : Int} (least : -2 ^ 53 ≤ n) (most : n ≤ 2 ^ 53) : @Small α _ _ n :=
  small_of_abs_le (abs_le.mpr ⟨least, most⟩)

theorem small_of_between {m n : Int} (small : @Small α _ _ m) (least : -m ≤ n) (most : n ≤ 1000) :
    @Small α _ _ n := by
  rcases lt_or_ge n 0 with below | above
  · apply small_of_small small
    rw [abs_of_neg below, abs_of_pos (by omega)]
    omega
  · exact small_of_le (by omega) (by omega)

theorem eq_ofNat_of_stands {x : α} {n : Nat} (positive : 0 < n) (small : n ≤ 2 ^ 53)
    (stands : Stands x n) : x = Number.ofNat n :=
  eq_of_value_eq (by exact_mod_cast positive.ne') stands (stands_ofNat small)

theorem stands_unique {x : α} {m n : Int} (first : Stands x m) (second : Stands x n) : m = n := by
  have same : (rat m : Exact) = rat n := first.symm.trans second
  rwa [Exact.rat.injEq, Int.cast_inj] at same

section Integers

variable {x y : α} {m n : Int} (first : Stands x m) (second : Stands y n)

include first second

theorem lt_int_iff : x < y ↔ m < n := by
  rw [lt_iff, first, second, Exact.rat_lt, Int.cast_lt]

theorem le_int_iff : x ≤ y ↔ m ≤ n := by
  rw [le_iff, first, second, Exact.rat_le, Int.cast_le]

theorem eq_int_iff (nonzero : n ≠ 0) : x = y ↔ m = n := by
  constructor
  · rintro rfl
    exact stands_unique first second
  · rintro rfl
    exact eq_of_value_eq nonzero first second

end Integers

theorem isInteger_iff (x : α) : Number.isInteger x = true ↔ ∃ n : Int, Stands x n := by
  rw [isInteger_eq, Exact.isInteger_iff]

theorem within_unit_iff (x : α) :
    0 ≤ x ∧ x < 1 ↔ ∃ p : Rat, value x = rat p ∧ 0 ≤ p ∧ p < 1 := by
  rw [le_iff, lt_iff, stands_zero, stands_one, ← Exact.within_unit_iff, Exact.literal_eq,
    Exact.literal_eq]
  norm_cast

end IntegerCarrier

instance : IntegerCarrier Exact where
  value := id
  Small _ := True
  small_of_abs_le _ := trivial
  small_of_small _ _ := trivial
  isFinite_eq _ := rfl
  isInteger_eq _ := rfl
  lt_iff _ _ := Iff.rfl
  le_iff _ _ := Iff.rfl
  beq_iff := by
    rintro _ _ m n rfl rfl
    rw [Exact.rat_beq, decide_eq_true_iff, Int.cast_inj]
  eq_of_value_eq _ first second := first.trans second.symm
  value_ofNat _ := Exact.ofNat_eq _
  value_notANumber := Exact.notANumber_eq
  value_least _ _ := rfl
  value_floor := by
    rintro _ p rfl
    exact Exact.floor_rat p
  value_ceil := by
    rintro _ p rfl
    exact Exact.ceil_rat p
  value_add := by
    rintro _ _ m n rfl rfl -
    rw [id, Exact.rat_add, Int.cast_add]
  value_sub := by
    rintro _ _ m n rfl rfl -
    rw [id, Exact.rat_sub, Int.cast_sub]
  value_mul := by
    rintro _ _ m n rfl rfl -
    rw [id, Exact.rat_mul, Int.cast_mul]
  value_add_nan := by
    rintro x y (rfl | rfl)
    · cases y <;> rfl
    · cases x <;> rfl
  value_sub_nan := by
    rintro x y (rfl | rfl)
    · cases y <;> rfl
    · cases x <;> rfl
  value_mul_nan := by
    rintro x y (rfl | rfl)
    · cases y <;> rfl
    · cases x <;> rfl
  value_floor_nan := by
    rintro x rfl
    rfl
  sub_neg := by
    rintro _ _ m n rfl rfl less
    rw [id, Exact.rat_sub, Exact.literal_eq, Exact.rat_lt, Nat.cast_zero, sub_neg]
    exact_mod_cast less
  isMultiple_iff := by
    rintro _ _ m n rfl rfl nonzero
    exact Exact.isMultiple_int m n nonzero
  exists_quotient := by
    rintro _ _ m n rfl rfl - - least -
    have nonzero : (n : Rat) ≠ 0 := by exact_mod_cast (by omega : n ≠ 0)
    exact ⟨_, Exact.rat_div _ nonzero, rfl⟩
  exists_share := by
    rintro _ _ p n rfl nonneg below rfl positive -
    have positive : (0 : Rat) < n := by exact_mod_cast positive
    exact ⟨_, Exact.rat_mul _ _, mul_nonneg nonneg positive.le,
      mul_lt_of_lt_one_left positive below⟩
  steps_eq := by
    rintro _ n rfl -
    have counted := Exact.steps_int n (Int.natCast_nonneg n)
    rwa [Int.cast_natCast, Int.toNat_natCast] at counted

namespace Double

open Float.Model Float.Model.UnpackedFloat

theorem unpack_of_nan {x : Float} (noNumber : exact x = nan) :
    x.toModel.unpack = .notANumber := by
  unfold exact at noNumber
  cases stored : x.toModel.unpack with
  | notANumber => rfl
  | infinity s =>
      rw [stored] at noNumber
      cases s <;> cases noNumber
  | zero s =>
      rw [stored] at noNumber
      cases noNumber
  | finite s m e positive =>
      rw [stored] at noNumber
      cases noNumber

theorem exact_pack_notANumber : exactOf (Float.Model.pack .notANumber).unpack = nan := by
  have unpacked : (Float.Model.pack .notANumber).unpack = .notANumber := unpack_packedNaN
  rw [unpacked]
  rfl

theorem exact_pack_of_nan {f : UnpackedFloat → UnpackedFloat → UnpackedFloat}
    (left : ∀ y, f .notANumber y = .notANumber) (right : ∀ x, f x .notANumber = .notANumber)
    {x y : Float} (noNumber : exact x = nan ∨ exact y = nan) :
    exactOf (Float.Model.pack (f x.toModel.unpack y.toModel.unpack)).unpack = nan := by
  rcases noNumber with first | second
  · rw [unpack_of_nan first, left]
    exact exact_pack_notANumber
  · rw [unpack_of_nan second, right]
    exact exact_pack_notANumber

section NoNumber

variable {x y : Float} (noNumber : exact x = nan ∨ exact y = nan)

include noNumber

theorem exact_add_nan : exact (x + y) = nan :=
  exact_pack_of_nan (f := UnpackedFloat.add Format.binary64) (fun _ => rfl)
    (fun x => by cases x <;> rfl) noNumber

theorem exact_sub_nan : exact (x - y) = nan :=
  exact_pack_of_nan (f := UnpackedFloat.sub Format.binary64) (fun _ => rfl)
    (fun x => by cases x <;> rfl) noNumber

theorem exact_mul_nan : exact (x * y) = nan :=
  exact_pack_of_nan (f := UnpackedFloat.mul Format.binary64) (fun _ => rfl)
    (fun x => by cases x <;> rfl) noNumber

end NoNumber

theorem exact_floor_nan {x : Float} (noNumber : exact x = nan) : exact (Number.floor x) = nan := by
  have unread : Binary.ofFloat? x = none := by
    rw [ofFloat?_eq, unpack_of_nan noNumber]
    rfl
  show exact (floor x) = nan
  simp only [floor, unread]
  exact noNumber

/-- No cycle leaves the rest 1 of the greatest distance. -/
theorem not_dvd_of_cycle {cycle : Int} (least : 2 ≤ cycle) (greatest : cycle ≤ 101) :
    ¬ cycle ∣ 2 ^ 53 - 1 := by
  have each : ∀ c < 102, 2 ≤ c → ¬ c ∣ 2 ^ 53 - 1 := by decide +kernel
  obtain ⟨c, rfl⟩ := Int.eq_ofNat_of_zero_le (by omega : 0 ≤ cycle)
  have natural := each c (by omega) (by omega)
  rwa [← Int.natCast_dvd_natCast] at natural

instance : IntegerCarrier Float where
  value := exact
  Small n := |n| ≤ 2 ^ 53
  small_of_abs_le := id
  small_of_small small less := less.trans small
  isFinite_eq := isFinite_eq_exact
  isInteger_eq := isInteger_eq_exact
  lt_iff := lt_iff_exact
  le_iff := le_iff_exact
  beq_iff first second := by
    rw [beq_eq_exact, first, second, Exact.rat_beq, decide_eq_true_iff, Int.cast_inj]
  eq_of_value_eq nonzero := eq_of_exact_eq (by exact_mod_cast nonzero)
  value_ofNat := exact_ofNat
  value_notANumber := by decide +kernel
  value_least := exact_least
  value_floor := exact_floor
  value_ceil := exact_ceil
  value_add := exact_add_int
  value_sub := exact_sub_int
  value_mul := exact_mul_int
  value_add_nan := exact_add_nan
  value_sub_nan := exact_sub_nan
  value_mul_nan := exact_mul_nan
  value_floor_nan := exact_floor_nan
  sub_neg first second less :=
    (exact_sub first second).rounds.neg_of_lt first second (by exact_mod_cast less)
  isMultiple_iff first second nonzero := by
    rw [isMultiple_eq_exact first second, Exact.isMultiple_int _ _ nonzero]
  exists_quotient first second positive small least greatest :=
    exists_quotient first second positive (abs_le.mp small).2 (by omega) (by omega)
      (not_dvd_of_cycle least greatest)
  exists_share := exists_share
  steps_eq := steps_of_nat

end Double

namespace Entry

variable {α : Type} [Number α] [IntegerCarrier α]

def valueOf : Entry α → Exact
  | missing => nan
  | given x => IntegerCarrier.value x

theorem exists_given {x : Entry α} {p : Rat} (stands : valueOf x = rat p) :
    ∃ y, x = given y ∧ IntegerCarrier.value y = rat p := by
  cases x with
  | missing => cases stands
  | given y => exact ⟨y, rfl, stands⟩

theorem valueOf_combine_nan {f : α → α → α}
    (absorbs : ∀ {x y : α}, IntegerCarrier.value x = nan ∨ IntegerCarrier.value y = nan →
      IntegerCarrier.value (f x y) = nan) {x y : Entry α}
    (noNumber : valueOf x = nan ∨ valueOf y = nan) : valueOf (combine f x y) = nan := by
  cases x with
  | missing => exact IntegerCarrier.value_notANumber
  | given x =>
      cases y with
      | missing => exact IntegerCarrier.value_notANumber
      | given y => exact absorbs noNumber

instance : IntegerCarrier (Entry α) where
  value := valueOf
  Small := @IntegerCarrier.Small α _ _
  small_of_abs_le := IntegerCarrier.small_of_abs_le
  small_of_small := IntegerCarrier.small_of_small
  isFinite_eq x := by
    cases x with
    | missing => rfl
    | given x => exact IntegerCarrier.isFinite_eq x
  isInteger_eq x := by
    cases x with
    | missing => rfl
    | given x => exact IntegerCarrier.isInteger_eq x
  lt_iff x y := by
    cases x with
    | missing =>
        exact iff_of_false Bool.false_ne_true fun less => (Exact.ne_nan_of_lt less).1 rfl
    | given x =>
        cases y with
        | missing =>
            exact iff_of_false Bool.false_ne_true fun less => (Exact.ne_nan_of_lt less).2 rfl
        | given y => exact (given_lt x y).trans (IntegerCarrier.lt_iff x y)
  le_iff x y := by
    cases x with
    | missing =>
        exact iff_of_false Bool.false_ne_true fun atMost => (Exact.ne_nan_of_le atMost).1 rfl
    | given x =>
        cases y with
        | missing =>
            exact iff_of_false Bool.false_ne_true fun atMost => (Exact.ne_nan_of_le atMost).2 rfl
        | given y => exact (given_le x y).trans (IntegerCarrier.le_iff x y)
  beq_iff first second := by
    obtain ⟨x, rfl, standsX⟩ := exists_given first
    obtain ⟨y, rfl, standsY⟩ := exists_given second
    rw [given_beq]
    exact IntegerCarrier.beq_iff standsX standsY
  eq_of_value_eq nonzero first second := by
    obtain ⟨x, rfl, standsX⟩ := exists_given first
    obtain ⟨y, rfl, standsY⟩ := exists_given second
    rw [IntegerCarrier.eq_of_value_eq nonzero standsX standsY]
  value_ofNat := IntegerCarrier.value_ofNat
  value_notANumber := IntegerCarrier.value_notANumber (α := α)
  value_least x y := by
    cases x with
    | missing => exact IntegerCarrier.value_notANumber
    | given x =>
        cases y with
        | missing =>
            rw [show valueOf (missing : Entry α) = nan from rfl, Exact.least_nan_right]
            exact IntegerCarrier.value_notANumber
        | given y => exact IntegerCarrier.value_least x y
  value_floor stands := by
    obtain ⟨x, rfl, stands⟩ := exists_given stands
    exact IntegerCarrier.value_floor stands
  value_ceil stands := by
    obtain ⟨x, rfl, stands⟩ := exists_given stands
    exact IntegerCarrier.value_ceil stands
  value_add first second small := by
    obtain ⟨x, rfl, standsX⟩ := exists_given first
    obtain ⟨y, rfl, standsY⟩ := exists_given second
    exact IntegerCarrier.value_add standsX standsY small
  value_sub first second small := by
    obtain ⟨x, rfl, standsX⟩ := exists_given first
    obtain ⟨y, rfl, standsY⟩ := exists_given second
    exact IntegerCarrier.value_sub standsX standsY small
  value_mul first second small := by
    obtain ⟨x, rfl, standsX⟩ := exists_given first
    obtain ⟨y, rfl, standsY⟩ := exists_given second
    exact IntegerCarrier.value_mul standsX standsY small
  value_add_nan := valueOf_combine_nan IntegerCarrier.value_add_nan
  value_sub_nan := valueOf_combine_nan IntegerCarrier.value_sub_nan
  value_mul_nan := valueOf_combine_nan IntegerCarrier.value_mul_nan
  value_floor_nan {x} noNumber := by
    cases x with
    | missing => exact IntegerCarrier.value_notANumber
    | given x => exact IntegerCarrier.value_floor_nan (x := x) noNumber
  sub_neg first second less := by
    obtain ⟨x, rfl, standsX⟩ := exists_given first
    obtain ⟨y, rfl, standsY⟩ := exists_given second
    exact IntegerCarrier.sub_neg standsX standsY less
  isMultiple_iff first second nonzero := by
    obtain ⟨x, rfl, standsX⟩ := exists_given first
    obtain ⟨y, rfl, standsY⟩ := exists_given second
    show Number.isMultiple x y = true ↔ _
    exact IntegerCarrier.isMultiple_iff standsX standsY nonzero
  exists_quotient first second positive small least greatest := by
    obtain ⟨x, rfl, standsX⟩ := exists_given first
    obtain ⟨y, rfl, standsY⟩ := exists_given second
    exact IntegerCarrier.exists_quotient standsX standsY positive small least greatest
  exists_share first nonneg below second positive fits := by
    obtain ⟨x, rfl, standsX⟩ := exists_given first
    obtain ⟨y, rfl, standsY⟩ := exists_given second
    exact IntegerCarrier.exists_share standsX nonneg below standsY positive fits
  steps_eq stands short := by
    obtain ⟨x, rfl, stands⟩ := exists_given stands
    show Number.steps x = _
    exact IntegerCarrier.steps_eq stands short

end Entry
end RuleAdvisor
