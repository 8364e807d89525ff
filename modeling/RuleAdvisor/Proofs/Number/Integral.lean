import RuleAdvisor.Proofs.Number.Whole

/-!
Integers as doubles. Every integer of at most 53 bits is a double, so what is computed from
integers is exact as long as it is such an integer. Rounding down and up, and the test whether one
integer divides another, are exact for every finite double.
-/

namespace RuleAdvisor

open Exact

namespace Double

theorem fits_int {n : Int} (small : |n| ≤ 2 ^ 53) : Fits n := by
  have size : |(n : Rat)| = (n.natAbs : Rat) := by
    rw [← Int.cast_abs, Int.abs_eq_natAbs, Int.cast_natCast]
  constructor
  · rw [Int.abs_eq_natAbs] at small
    rcases (by omega : n.natAbs < 2 ^ 53 ∨ n.natAbs = 2 ^ 53) with short | full
    · exact ⟨n.natAbs, 0, short, by decide, by rw [size, scaled, zpow_zero, mul_one]⟩
    · refine ⟨2 ^ 52, 1, by decide, by decide, ?_⟩
      rw [size, full, scaled]
      norm_num
  · calc |(n : Rat)| ≤ 2 ^ (53 : Int) := by exact_mod_cast small
      _ < 2 ^ (1023 : Int) := zpow_lt_zpow_right₀ (by norm_num) (by norm_num)

theorem Rounded.int {n : Int} {x : Exact} (rounded : Rounded n x) (small : |n| ≤ 2 ^ 53) :
    x = rat n := rounded.unchanged (fits_int small)

section Results

variable {x y : Float} {m n : Int} (first : exact x = rat m) (second : exact y = rat n)

include first second

theorem exact_add_int (small : |m + n| ≤ 2 ^ 53) : exact (x + y) = rat (m + n : Int) := by
  have rounded := exact_add first second
  rw [← Int.cast_add] at rounded
  exact rounded.int small

theorem exact_sub_int (small : |m - n| ≤ 2 ^ 53) : exact (x - y) = rat (m - n : Int) := by
  have rounded := exact_sub first second
  rw [← Int.cast_sub] at rounded
  exact rounded.int small

theorem exact_mul_int (small : |m * n| ≤ 2 ^ 53) : exact (x * y) = rat (m * n : Int) := by
  have rounded := exact_mul first second
  rw [← Int.cast_mul] at rounded
  exact rounded.int small

end Results

theorem exact_ofNat {n : Nat} (small : n ≤ 2 ^ 53) : exact (Number.ofNat n) = rat n := by
  have inRange : |(n : Int)| ≤ 2 ^ 53 := by
    rw [Nat.abs_cast]
    exact_mod_cast small
  rcases Nat.eq_zero_or_pos n with rfl | positive
  · rw [exact_zero, literal_eq]
  · rcases small.lt_or_eq with short | rfl
    · obtain ⟨rounded, product⟩ := ofNat_small positive short
      have converted : exact n.toUInt64.toFloat = rat (n : Int) :=
        Rounded.int (by rwa [Int.cast_natCast]) inRange
      have one : exact 1.0 = rat (1 : Int) := by decide +kernel
      rw [product, exact_mul_int converted one (by rwa [mul_one]), mul_one, Int.cast_natCast]
    · exact (ofNat_great le_rfl).int inRange

theorem exact_one : exact (Number.ofNat 1) = rat (1 : Int) := exact_ofNat (by decide)

theorem exact_least (x y : Float) :
    exact (Number.least x y) = Number.least (exact x) (exact y) := by
  have zero : exact 0.0 = rat (0 : Int) := by decide +kernel
  show exact (least x y) = Exact.least (exact x) (exact y)
  simp only [least, Exact.least, isNaN_eq_exact, ← Bool.decide_or, decide_eq_true_eq]
  split
  · decide +kernel
  · split
    · next zeros =>
        rw [Bool.and_eq_true, beq_eq_exact, beq_eq_exact, zero] at zeros
        have first : exact (-x) = rat (0 : Int) := by
          rw [exact_neg, eq_of_beq_rat zeros.1]
          rfl
        have second : exact (-y) = rat (0 : Int) := by
          rw [exact_neg, eq_of_beq_rat zeros.2]
          rfl
        rw [exact_neg, exact_add_int first second (by decide), eq_of_beq_rat zeros.1,
          eq_of_beq_rat zeros.2]
        rfl
    · rw [apply_ite exact]
      exact if_congr (lt_iff_exact y x) rfl rfl

theorem exact_ofInt {n : Int} (small : |n| ≤ 2 ^ 53) : exact (Number.ofInt n) = rat n := by
  rw [Int.abs_eq_natAbs] at small
  cases n with
  | ofNat k => exact exact_ofNat (Int.ofNat_le.mp small)
  | negSucc k =>
      have size : exact (Number.ofNat (k + 1)) = rat (k + 1 : Nat) := exact_ofNat (by omega)
      show exact (-Number.ofNat (k + 1)) = _
      rw [exact_neg, size, rat_neg, Int.cast_negSucc]

/-- An integer of more than 53 bits, whatever it is rounded to, stays on its side of the small
ones. -/
theorem exact_ofInt_beyond {n : Int} (great : 2 ^ 53 < |n|) :
    0 < n ∧ rat (2 ^ 51 : Nat) < exact (Number.ofInt n)
      ∨ n < 0 ∧ exact (Number.ofInt n) < rat (-(2 ^ 51 : Nat)) := by
  rw [Int.abs_eq_natAbs] at great
  cases n with
  | ofNat k =>
      have long : 2 ^ 53 < k := Int.ofNat_lt.mp great
      exact .inl ⟨Int.natCast_pos.mpr (by omega), lt_exact_ofNat (by decide) (by omega)⟩
  | negSucc k =>
      have size : rat (2 ^ 51 : Nat) < exact (Number.ofNat (k + 1)) :=
        lt_exact_ofNat (by decide) (by omega)
      refine .inr ⟨by omega, ?_⟩
      show exact (-Number.ofNat (k + 1)) < _
      rw [exact_neg]
      cases stored : exact (Number.ofNat (k + 1)) with
      | rat q =>
          rw [stored, rat_lt] at size
          rw [rat_neg, rat_lt]
          exact neg_lt_neg size
      | posInf => rfl
      | _ =>
          rw [stored] at size
          exact absurd size Bool.false_ne_true

theorem compare_ofInt {k : Int} (small : |k| ≤ 2 ^ 51) (n : Int) :
    (exact (Number.ofInt n) < rat k ↔ n < k) ∧ (rat k < exact (Number.ofInt n) ↔ k < n) := by
  obtain ⟨above, below⟩ := abs_le.mp small
  have number : rat k ≠ nan := fun same => nomatch same
  rcases le_or_gt |n| (2 ^ 53) with short | long
  · rw [exact_ofInt short, rat_lt, rat_lt, Int.cast_lt, Int.cast_lt]
    exact ⟨Iff.rfl, Iff.rfl⟩
  · rcases exact_ofInt_beyond long with ⟨positive, greater⟩ | ⟨negative, less⟩
    · have more : rat k < exact (Number.ofInt n) := by
        apply (lt_or_lt_of_lt number greater).resolve_left
        rw [rat_lt, not_lt]
        exact_mod_cast below
      rw [abs_of_pos positive] at long
      exact ⟨iff_of_false (not_lt_of_lt more) (by omega), iff_of_true more (by omega)⟩
    · have fewer : exact (Number.ofInt n) < rat k := by
        apply (lt_or_lt_of_lt number less).resolve_right
        rw [rat_lt, not_lt]
        exact_mod_cast above
      rw [abs_of_neg negative] at long
      exact ⟨iff_of_true fewer (by omega), iff_of_false (not_lt_of_lt fewer) (by omega)⟩

end Double

namespace Binary

def dividend (x : Binary) : Int := if x.negative then -(x.ratio.1 : Int) else x.ratio.1

def value (x : Binary) : Rat := x.dividend / x.ratio.2

theorem divisor_pos (x : Binary) : 0 < x.ratio.2 := by
  unfold ratio
  split
  · exact Nat.one_pos
  · exact Nat.two_pow_pos _

theorem dividend_natAbs (x : Binary) : x.dividend.natAbs = x.ratio.1 := by
  unfold dividend
  split <;> simp

theorem dividend_eq_zero_iff (x : Binary) : x.dividend = 0 ↔ x.mantissa = 0 := by
  have unit (k : Nat) : powerOfTwo k ≠ 0 := (Nat.two_pow_pos k).ne'
  rw [← Int.natAbs_eq_zero, dividend_natAbs, ratio]
  split <;> simp [unit]

theorem floor_eq (x : Binary) : x.floor = ⌊x.value⌋ :=
  (Rat.floor_intCast_div_natCast x.dividend x.ratio.2).symm

theorem isMultiple_eq (x y : Binary) :
    x.isMultiple y = Number.isMultiple (rat x.value) (rat y.value) := by
  have first : (x.ratio.2 : Rat) ≠ 0 := by exact_mod_cast x.divisor_pos.ne'
  have second : (y.ratio.2 : Rat) ≠ 0 := by exact_mod_cast y.divisor_pos.ne'
  show (y.mantissa != 0 && x.ratio.1 * y.ratio.2 % (y.ratio.1 * x.ratio.2) == 0)
    = (y.value != 0 && (x.value / y.value).isInt)
  by_cases zero : y.dividend = 0
  · have nothing : y.value = 0 := by rw [value, zero, Int.cast_zero, zero_div]
    rw [nothing, (dividend_eq_zero_iff y).mp zero]
    rfl
  · have nonzero : y.value ≠ 0 := div_ne_zero (Int.cast_ne_zero.mpr zero) second
    have divisor : y.dividend * x.ratio.2 ≠ 0 :=
      mul_ne_zero zero (by exact_mod_cast x.divisor_pos.ne')
    have quotient : x.value / y.value
        = ((x.dividend * y.ratio.2 : Int) : Rat) / (y.dividend * x.ratio.2 : Int) := by
      rw [value, value]
      push_cast
      field_simp
    have inIntegers := isMultiple_int (x.dividend * y.ratio.2) _ divisor
    -- The bits decide it by sizes alone, since signs do not matter to divisibility.
    have natural : y.dividend * x.ratio.2 ∣ x.dividend * y.ratio.2
        ↔ y.ratio.1 * x.ratio.2 ∣ x.ratio.1 * y.ratio.2 := by
      rw [← Int.natAbs_dvd_natAbs, Int.natAbs_mul, Int.natAbs_mul, dividend_natAbs,
        dividend_natAbs, Int.natAbs_natCast, Int.natAbs_natCast]
    have bits : y.mantissa ≠ 0 := mt (dividend_eq_zero_iff y).mpr zero
    rw [bne_iff_ne.mpr bits, bne_iff_ne.mpr nonzero, quotient, Bool.true_and, Bool.true_and,
      Bool.eq_iff_iff, beq_iff_eq, ← Nat.dvd_iff_mod_eq_zero, ← natural, ← inIntegers]
    show (_ != _ && _) = true ↔ _
    rw [bne_iff_ne.mpr (Int.cast_ne_zero.mpr divisor), Bool.true_and]

theorem value_eq (negative : Bool) (m : Nat) (e : Int) :
    value ⟨negative, m, e⟩ = if negative then -Double.scaled m e else Double.scaled m e := by
  have power (k : Nat) : ((powerOfTwo k : Nat) : Rat) = 2 ^ k := Nat.cast_pow 2 k
  have size : ((ratio ⟨negative, m, e⟩).1 : Rat) / (ratio ⟨negative, m, e⟩).2
      = Double.scaled m e := by
    unfold ratio
    by_cases whole : 0 ≤ e
    · obtain ⟨k, rfl⟩ := Int.eq_ofNat_of_zero_le whole
      simp [Double.scaled, power]
    · simp [Double.scaled_of_neg (not_le.mp whole), whole, power]
  cases negative <;> simp [value, dividend, ← size, neg_div]

end Binary

namespace Double

theorem ofFloat?_of_exact {x : Float} {v : Rat} (finite : exact x = rat v) :
    ∃ b, Binary.ofFloat? x = some b ∧ b.value = v ∧ b.mantissa < 2 ^ 53 := by
  have read := ofFloat?_eq x
  rcases unpack_of_exact finite with ⟨s, stored, rfl⟩ | ⟨s, m, e, canonical, stored, _, rfl⟩
  · rw [stored] at read
    exact ⟨_, read, by simp [Binary.value_eq, scaled], Nat.two_pow_pos 53⟩
  · rw [stored] at read
    refine ⟨_, read, ?_, canonical.bounded⟩
    rw [Binary.value_eq]
    cases s <;> rfl

theorem exact_floor {x : Float} {v : Rat} (finite : exact x = rat v) :
    exact (Number.floor x) = rat ⌊v⌋ := by
  obtain ⟨b, read, rfl, bounded⟩ := ofFloat?_of_exact finite
  show exact (floor x) = _
  simp only [floor, read]
  split
  · next whole =>
      have integral : b.value = b.dividend := by simp [Binary.value, Binary.ratio, whole]
      rw [finite, integral, Int.floor_intCast]
  · next fraction =>
      have dividend : b.dividend.natAbs = b.mantissa := by
        simp [Binary.dividend_natAbs, Binary.ratio, fraction]
      -- The floor takes no more bits than the mantissa, so nothing is rounded when it is stored.
      have size : b.floor.natAbs ≤ 2 ^ 53 :=
        (Int.natAbs_ediv_le_natAbs b.dividend b.ratio.2).trans (dividend.trans_lt bounded).le
      have stored : exact (scientific b.floor.natAbs false 0) = rat b.floor.natAbs :=
        exact_ofNat size
      rw [← Binary.floor_eq]
      have divisor : (0 : Int) < b.ratio.2 := Int.natCast_pos.mpr b.divisor_pos
      cases negative : b.negative with
      | true =>
          have atMost : b.dividend ≤ 0 := by simp [Binary.dividend, negative]
          have below : b.floor ≤ 0 := Int.ediv_nonpos_of_nonpos_of_neg atMost divisor
          rw [if_pos rfl, exact_neg, stored, rat_neg, ← Int.cast_natCast,
            Int.ofNat_natAbs_of_nonpos below, Int.cast_neg, neg_neg]
      | false =>
          have atLeast : 0 ≤ b.dividend := by simp [Binary.dividend, negative]
          have above : 0 ≤ b.floor := Int.ediv_nonneg atLeast divisor.le
          rw [if_neg Bool.false_ne_true, stored, ← Int.cast_natCast, Int.natAbs_of_nonneg above]

theorem exact_ceil {x : Float} {v : Rat} (finite : exact x = rat v) :
    exact (Number.ceil x) = rat ⌈v⌉ := by
  have flipped : exact (-x) = rat (-v) := by rw [exact_neg, finite, rat_neg]
  show exact (-floor (-x)) = _
  rw [exact_neg, show exact (floor (-x)) = _ from exact_floor flipped, rat_neg, Int.floor_neg,
    Int.cast_neg, neg_neg]

theorem steps_of_nat {x : Float} {n : Nat} (whole : exact x = rat n) (small : n < powerOfTwo 53) :
    Number.steps x = some (n + 1) := by
  have notNaN : x.isNaN = false := by
    rw [isNaN_eq_exact, whole]
    rfl
  have notNegative : ¬ x < 0.0 := by
    have zero : exact 0.0 = rat (0 : Int) := by decide +kernel
    rw [lt_iff_exact, whole, zero, rat_lt, Int.cast_zero, not_lt]
    exact Nat.cast_nonneg n
  have below : x < scientific (powerOfTwo 53) false 0 := by
    have limit : exact (Number.ofNat (powerOfTwo 53)) = rat (powerOfTwo 53 : Nat) :=
      exact_ofNat le_rfl
    rw [lt_iff_exact, whole, show exact (scientific (powerOfTwo 53) false 0) = _ from limit, rat_lt,
      Nat.cast_lt]
    exact small
  have floored : exact (floor x) = rat n := by
    rw [show exact (floor x) = _ from exact_floor whole, Int.floor_natCast, Int.cast_natCast]
  have bits : n < 2 ^ 64 := small.trans (by decide)
  show steps x = _
  rw [steps, notNaN, decide_eq_false notNegative, Bool.or_self, if_neg Bool.false_ne_true,
    if_pos below, toNat_toUInt64 floored bits]

theorem isInteger_eq_exact (x : Float) : Number.isInteger x = Number.isInteger (exact x) := by
  have finiteness : Number.isFinite x = Number.isFinite (exact x) := isFinite_eq_exact x
  unfold Number.isInteger
  rw [finiteness]
  cases finite : exact x with
  | rat v =>
      rw [show (Number.floor x == x) = _ from beq_eq_exact _ x, exact_floor finite, finite]
      rfl
  | _ => rfl

theorem isMultiple_eq_exact {x y : Float} {v w : Rat} (first : exact x = rat v)
    (second : exact y = rat w) :
    Number.isMultiple x y = Number.isMultiple (rat v) (rat w) := by
  obtain ⟨a, readFirst, rfl, -⟩ := ofFloat?_of_exact first
  obtain ⟨b, readSecond, rfl, -⟩ := ofFloat?_of_exact second
  show isMultiple x y = _
  rw [← Binary.isMultiple_eq, isMultiple, readFirst, readSecond]

theorem ceil_eq_of_mul {c v : Rat} {whole : Int} (positive : 0 < c) (lower : c * whole < c * v)
    (upper : c * v ≤ c * (whole + 1)) : ⌈v⌉ = whole + 1 := by
  rw [Int.ceil_eq_iff]
  push_cast
  rw [add_sub_cancel_right]
  exact ⟨lt_of_mul_lt_mul_left lower positive.le, le_of_mul_le_mul_left upper positive⟩

/-- One part in `2 ^ 53` of a dividend is less than the rest of a division that leaves one. Of the
greatest dividend it is 1, so the rest has to be more. -/
theorem part_lt_rest {p c : Int} (most : p ≤ 2 ^ 53) (divisor : 0 < c) (broken : ¬ c ∣ p)
    (notLast : ¬ c ∣ 2 ^ 53 - 1) :
    (p : Rat) * 2 ^ (-53 : Int) ≤ 1 ∧ (p : Rat) * 2 ^ (-53 : Int) < (p % c : Int) := by
  have more : 1 ≤ p % c :=
    (Int.emod_nonneg p divisor.ne').lt_of_ne' fun none => broken (Int.dvd_of_emod_eq_zero none)
  rcases most.lt_or_eq with short | rfl
  · have more : (1 : Rat) ≤ (p % c : Int) := by exact_mod_cast more
    have short : (p : Rat) < 2 ^ 53 := by exact_mod_cast short
    have small : (p : Rat) * 2 ^ (-53 : Int) < 2 ^ 53 * 2 ^ (-53 : Int) :=
      mul_lt_mul_of_pos_right short (by positivity)
    rw [show (2 : Rat) ^ 53 * 2 ^ (-53 : Int) = 1 by norm_num] at small
    exact ⟨small.le, small.trans_le more⟩
  · -- A rest of 1 would leave none one below, which is the case that is excluded.
    have second : 2 ≤ (2 ^ 53 : Int) % c := by
      by_contra first
      have division := Int.emod_add_mul_ediv (2 ^ 53) c
      exact notLast ⟨2 ^ 53 / c, by omega⟩
    have second : (2 : Rat) ≤ ((2 ^ 53 % c : Int) : Rat) := by exact_mod_cast second
    have whole : ((2 ^ 53 : Int) : Rat) * 2 ^ (-53 : Int) = 1 := by norm_num
    rw [whole]
    exact ⟨le_rfl, by linarith⟩

/-- What is off by one part in `2 ^ 53` at most is rounded up to the same integer as the quotient,
if that is none itself. -/
theorem ceil_of_close {p c : Int} {v : Rat} (most : p ≤ 2 ^ 53) (divisor : 0 < c)
    (broken : ¬ c ∣ p) (notLast : ¬ c ∣ 2 ^ 53 - 1)
    (close : |v - p / c| ≤ p / c * 2 ^ (-53 : Int)) : ⌈v⌉ = ⌈(p : Rat) / c⌉ := by
  obtain ⟨atMostOne, lessThanRest⟩ := part_lt_rest most divisor broken notLast
  have division : (p : Rat) = (p % c : Int) + c * (p / c : Int) := by
    exact_mod_cast (Int.emod_add_mul_ediv p c).symm
  have rest : ((p % c : Int) : Rat) + 1 ≤ c := by exact_mod_cast Int.emod_lt_of_pos p divisor
  have more : (0 : Rat) < (p % c : Int) := by
    have nonneg := Int.emod_nonneg p divisor.ne'
    exact_mod_cast nonneg.lt_of_ne' fun none => broken (Int.dvd_of_emod_eq_zero none)
  have divisor : (0 : Rat) < c := by exact_mod_cast divisor
  have share : (c : Rat) * (p / c) = p := mul_div_cancel₀ _ divisor.ne'
  -- Multiplied by `c`, the error bound is what `part_lt_rest` keeps below the rest and below 1.
  obtain ⟨below, above⟩ := abs_le.mp close
  have least := mul_le_mul_of_nonneg_left below divisor.le
  have greatest := mul_le_mul_of_nonneg_left above divisor.le
  rw [mul_neg, ← mul_assoc, mul_sub, share] at least
  rw [← mul_assoc, mul_sub, share] at greatest
  have rounded : ⌈v⌉ = p / c + 1 := ceil_eq_of_mul divisor (by linarith) (by linarith)
  have exactly : ⌈(p : Rat) / c⌉ = p / c + 1 := ceil_eq_of_mul divisor (by linarith) (by linarith)
  rw [rounded, exactly]

theorem exists_quotient {x y : Float} {p c : Int} (first : exact x = rat p)
    (second : exact y = rat c) (positive : 0 < p) (most : p ≤ 2 ^ 53) (divisor : 0 < c)
    (fits : c ≤ 2 ^ 53) (notLast : ¬ c ∣ 2 ^ 53 - 1) :
    ∃ v, exact (x / y) = rat v ∧ ⌈v⌉ = ⌈(p : Rat) / c⌉ := by
  have dividendRat : (1 : Rat) ≤ p := by exact_mod_cast positive
  have divisorRat : (1 : Rat) ≤ c := by exact_mod_cast divisor
  have nonzero : (c : Rat) ≠ 0 := by linarith
  have rounded := exact_div first second nonzero
  by_cases whole : c ∣ p
  · obtain ⟨k, rfl⟩ := whole
    have quotient : ((c * k : Int) : Rat) / c = k := by
      rw [Int.cast_mul, mul_div_cancel_left₀ _ nonzero]
    have small : |k| ≤ 2 ^ 53 := by
      have above : 0 < k := (mul_pos_iff_of_pos_left divisor).mp positive
      rw [abs_of_pos above]
      exact (le_mul_of_one_le_left above.le divisor).trans most
    rw [quotient] at rounded ⊢
    exact ⟨k, rounded.int small, rfl⟩
  -- Otherwise the quotient is off by its last place, which is less than what the division leaves.
  · have normal : (2 : Rat) ^ (-1022 : Int) ≤ p / c := by
      have fits : (c : Rat) ≤ 2 ^ (53 : Int) := by exact_mod_cast fits
      rw [le_div_iff₀ (by linarith)]
      calc (2 : Rat) ^ (-1022 : Int) * c ≤ 2 ^ (-1022 : Int) * 2 ^ (53 : Int) :=
            mul_le_mul_of_nonneg_left fits (by positivity)
        _ ≤ 1 := by
            rw [← zpow_add₀ (by norm_num)]
            exact zpow_le_one_of_nonpos₀ (by norm_num) (by norm_num)
        _ ≤ p := dividendRat
    have notGreat : |(p : Rat) / c| < 2 ^ (1023 : Int) := by
      have most : (p : Rat) ≤ 2 ^ (53 : Int) := by exact_mod_cast most
      rw [abs_of_pos (by positivity)]
      calc (p : Rat) / c ≤ p := div_le_self (by linarith) divisorRat
        _ ≤ 2 ^ (53 : Int) := most
        _ < 2 ^ (1023 : Int) := zpow_lt_zpow_right₀ (by norm_num) (by norm_num)
    obtain ⟨v, stored, close⟩ := rounded.rounds.exists_rat notGreat
    rw [slack_normal normal] at close
    exact ⟨v, stored, ceil_of_close most divisor whole notLast close⟩

end Double
end RuleAdvisor
