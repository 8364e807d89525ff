import RuleAdvisor.Proofs.Number.Operations

/-!
Natural numbers as doubles. However long a natural number is, it stays above a small one when it
is rounded, and a rounded share below 1 of it does not reach it.
-/

namespace RuleAdvisor.Double

open Exact Float.Model Float.Model.UnpackedFloat

theorem slack_normal {p : Rat} (normal : 2 ^ (-1022 : Int) ≤ p) :
    slack p = p * 2 ^ (-53 : Int) := by
  have least : (0 : Rat) < 2 ^ (-1022 : Int) := by positivity
  rw [slack, abs_of_nonneg (least.le.trans normal), max_eq_left]
  calc (2 : Rat) ^ (-1075 : Int) = 2 ^ (-1022 : Int) * 2 ^ (-53 : Int) := by
        rw [← zpow_add₀ (by norm_num)]
        rfl
    _ ≤ p * 2 ^ (-53 : Int) := mul_le_mul_of_nonneg_right normal (by positivity)

theorem Rounds.gt {p r : Rat} {x : Exact} (rounds : Rounds p x) (normal : 2 ^ (-1022 : Int) ≤ p)
    (less : r < p * (1 - 2 ^ (-53 : Int))) : rat r < x := by
  rcases rounds with ⟨q, rfl, close⟩ | ⟨rfl, _⟩ | ⟨rfl, small⟩
  · rw [rat_lt]
    rw [slack_normal normal] at close
    have off := (abs_le.mp close).1
    linarith
  · rfl
  · have least : (0 : Rat) < 2 ^ (-1022 : Int) := by positivity
    have great : (0 : Rat) < 2 ^ (1023 : Int) := by positivity
    exact absurd (small.trans (neg_nonpos.mpr great.le)) (not_le.mpr (least.trans_le normal))

theorem Rounds.exists_rat {p : Rat} {x : Exact} (rounds : Rounds p x)
    (small : |p| < 2 ^ (1023 : Int)) : ∃ q, x = rat q ∧ |q - p| ≤ slack p := by
  obtain ⟨above, below⟩ := abs_lt.mp small
  rcases rounds with stored | ⟨_, great⟩ | ⟨_, great⟩
  · exact stored
  · exact absurd great (not_le.mpr below)
  · exact absurd great (not_le.mpr above)

theorem ofNat_eq {n : Nat} (positive : 0 < n) :
    (Number.ofNat n : Float) = Float.ofScientific n false 0 := by
  show scientific n false 0 = _
  simp only [scientific, positive.ne', if_false]
  rfl

theorem rounded_toFloat (word : UInt64) : Rounded word.toNat (exact word.toFloat) := by
  have rounded := rounded_normalize word.toNat 0
  rw [zpow_zero, mul_one, Int.cast_natCast] at rounded
  exact rounded

theorem ofNat_small {n : Nat} (positive : 0 < n) (small : n < 2 ^ 53) :
    Rounded n (exact n.toUInt64.toFloat)
      ∧ (Number.ofNat n : Float) = n.toUInt64.toFloat * 1.0 := by
  constructor
  · have natural : n.toUInt64.toNat = n := Nat.mod_eq_of_lt (small.trans (by decide))
    have rounded := rounded_toFloat n.toUInt64
    rwa [natural] at rounded
  · rw [ofNat_eq positive, Float.ofScientific, dif_pos ⟨small, by decide⟩]
    rfl

theorem ofNat_great {n : Nat} (great : 2 ^ 53 ≤ n) : Rounded n (exact (Number.ofNat n)) := by
  have positive : 0 < n := (Nat.two_pow_pos 53).trans_le great
  have size : (n : Rat) = signed .positive (scaled (n <<< 53 * 10 ^ 0) (-53 + 0)) := by
    rw [Nat.pow_zero, Nat.mul_one, signed, show (-53 + 0 : Int) = 0 - (53 : Nat) from rfl,
      scaled_shiftLeft, scaled, zpow_zero, mul_one]
  have notHuge : ¬ (0 : Int) > 2 ^ Format.binary64.exponentBits := by decide
  have notTiny : ¬ (0 : Int) < -(2 ^ Format.binary64.exponentBits + (n.log2 : Int)) := by
    norm_num
  have stored : (Number.ofNat n : Float) = ⟨Float.Model.pack
      (roundWithAccuracy Format.binary64 .positive (n <<< 53 * 10 ^ 0) (-53 + 0) .exact)⟩ := by
    rw [ofNat_eq positive, Float.ofScientific, dif_neg (fun small => absurd small.1 great.not_gt)]
    show (⟨Float.Model.pack (UnpackedFloat.ofScientific Format.binary64 n 0)⟩ : Float) = _
    rw [UnpackedFloat.ofScientific, dif_neg positive.ne', if_neg notHuge, if_neg notTiny,
      if_pos le_rfl]
    rfl
  rw [stored, size]
  apply rounded_exact
  left
  rw [Nat.shiftLeft_eq, Nat.pow_zero, Nat.mul_one]
  exact (Nat.le_mul_of_pos_left _ positive).trans' (by decide)

/-- Two natural numbers stay apart though the greater loses one part in `2 ^ 53`, even twice. -/
theorem lt_twice_rounded {k n : Nat} (fits : k + 1 < 2 ^ 52) (less : k < n) :
    (k : Rat) < n * (1 - 2 ^ (-53 : Int)) * (1 - 2 ^ (-53 : Int)) := by
  have fits : (k : Rat) + 1 < 2 ^ 52 := by exact_mod_cast fits
  have next : (k : Rat) + 1 ≤ n := by exact_mod_cast less
  norm_num
  nlinarith

theorem least_le_half : (2 : Rat) ^ (-1022 : Int) ≤ 1 / 2 :=
  calc (2 : Rat) ^ (-1022 : Int) ≤ 2 ^ (-1 : Int) :=
        zpow_le_zpow_right₀ (by norm_num) (by norm_num)
    _ = 1 / 2 := by norm_num

theorem lt_exact_ofNat {k n : Nat} (fits : k + 1 < 2 ^ 52) (less : k < n) :
    rat k < exact (Number.ofNat n) := by
  have positive : 0 < n := by omega
  have one : (1 : Rat) ≤ n := by exact_mod_cast positive
  have least := least_le_half
  have twice := lt_twice_rounded fits less
  by_cases small : n < 2 ^ 53
  · obtain ⟨rounded, product⟩ := ofNat_small positive small
    have notGreat : |(n : Rat)| < 2 ^ (1023 : Int) := by
      rw [abs_of_nonneg (by linarith)]
      calc (n : Rat) < 2 ^ (53 : Int) := by exact_mod_cast small
        _ ≤ 2 ^ (1023 : Int) := zpow_le_zpow_right₀ (by norm_num) (by norm_num)
    obtain ⟨q, converted, close⟩ := rounded.rounds.exists_rat notGreat
    rw [slack_normal (by linarith)] at close
    have off := (abs_le.mp close).1
    have unit : exact 1.0 = rat 1 := by decide +kernel
    -- The conversion is one rounding, and the product with 1 is another.
    rw [product]
    apply (exact_mul converted unit).rounds.gt
    · rw [mul_one]
      refine least.trans ?_
      norm_num at off
      linarith
    · rw [mul_one]
      refine twice.trans_le (mul_le_mul_of_nonneg_right ?_ (by norm_num))
      linarith
  · apply (ofNat_great (not_lt.mp small)).rounds.gt (by linarith)
    refine twice.trans_le (mul_le_of_le_one_right ?_ (by norm_num))
    exact mul_nonneg (by linarith) (by norm_num)

theorem scaled_of_neg {m : Nat} {e : Int} (fraction : e < 0) :
    scaled m e = (m : Rat) / (2 ^ (-e).toNat : Nat) := by
  have exponent : e = -((-e).toNat : Int) := by omega
  rw [scaled, div_eq_mul_inv]
  conv_lhs => rw [exponent, zpow_neg, zpow_natCast]
  push_cast
  rfl

theorem le_of_lt_one {x : Float} {p : Rat} (finite : exact x = rat p) (nonneg : 0 ≤ p)
    (below : p < 1) : p ≤ 1 - 2 ^ (-53 : Int) := by
  rcases unpack_of_exact finite with ⟨_, _, rfl⟩ | ⟨s, m, e, canonical, _, _, rfl⟩
  · norm_num
  · cases s with
    | negative =>
        have size := scaled_pos (e := e) canonical.positive
        exact absurd nonneg (not_le.mpr (neg_lt_zero.mpr size))
    | positive =>
        -- With a greater exponent a full mantissa would reach 1.
        have lower : e ≤ -53 := by
          by_contra higher
          have full : (2 : Rat) ^ (52 : Int) ≤ m := by
            exact_mod_cast canonical.full.resolve_right (by omega)
          have unit : (2 : Rat) ^ (-52 : Int) ≤ 2 ^ e :=
            zpow_le_zpow_right₀ (by norm_num) (by omega)
          have one : (2 : Rat) ^ (52 : Int) * 2 ^ (-52 : Int) ≤ scaled m e :=
            mul_le_mul full unit (by positivity) (by positivity)
          rw [← zpow_add₀ (by norm_num)] at one
          exact absurd below (not_lt.mpr one)
        have bounded : (m : Rat) ≤ 2 ^ 53 - 1 := by
          have last : (m : Rat) + 1 ≤ 2 ^ 53 := by exact_mod_cast canonical.bounded
          linarith
        have unit : (2 : Rat) ^ e ≤ 2 ^ (-53 : Int) := zpow_le_zpow_right₀ (by norm_num) lower
        calc scaled m e ≤ (2 ^ 53 - 1) * 2 ^ (-53 : Int) :=
              mul_le_mul bounded unit (by positivity) (by norm_num)
          _ = 1 - 2 ^ (-53 : Int) := by norm_num

theorem nonneg_of_close {x : Float} {p v : Rat} (rounded : exact x = rat v) (nonneg : 0 ≤ p)
    (close : |v - p| ≤ slack p) : 0 ≤ v := by
  have unit : (0 : Rat) < 2 ^ (-1074 : Int) := by positivity
  have above := (abs_le.mp close).1
  rw [slack, abs_of_nonneg nonneg] at above
  -- What is off is less than the least positive double, of which `v` is a multiple.
  have least : -2 ^ (-1074 : Int) < v := by
    rcases max_choice (p * 2 ^ (-53 : Int)) (2 ^ (-1075 : Int)) with relative | absolute
    · rw [relative] at above
      have kept : 0 ≤ p * (1 - 2 ^ (-53 : Int)) := mul_nonneg nonneg (by norm_num)
      linarith
    · rw [absolute] at above
      have half : (2 : Rat) ^ (-1075 : Int) < 2 ^ (-1074 : Int) :=
        zpow_lt_zpow_right₀ (by norm_num) (by norm_num)
      linarith
  obtain ⟨units, rfl⟩ := exists_units rounded
  have moreThan : (-1 : Rat) < units := by
    rw [neg_lt, ← mul_lt_mul_iff_left₀ unit]
    linarith
  have natural : (-1 : Int) < units := by exact_mod_cast moreThan
  exact mul_nonneg (by exact_mod_cast Int.lt_iff_add_one_le.mp natural) unit.le

/-- A share that keeps a distance from 1 is rounded to one below the whole. -/
theorem lt_of_close {p v : Rat} {m : Nat} (nonneg : 0 ≤ p) (distance : p ≤ 1 - 2 ^ (-53 : Int))
    (one : (1 : Rat) ≤ m) (close : |v - p * m| ≤ slack (p * m)) : v < m := by
  have product : 0 ≤ p * m := mul_nonneg nonneg (by linarith)
  have share : p * m ≤ (1 - 2 ^ (-53 : Int)) * m :=
    mul_le_mul_of_nonneg_right distance (by linarith)
  have under := (abs_le.mp close).2
  rw [slack, abs_of_nonneg product] at under
  rcases max_choice (p * m * 2 ^ (-53 : Int)) (2 ^ (-1075 : Int)) with relative | absolute
  · rw [relative] at under
    have grown : p * m * (1 + 2 ^ (-53 : Int))
        ≤ (1 - 2 ^ (-53 : Int)) * m * (1 + 2 ^ (-53 : Int)) :=
      mul_le_mul_of_nonneg_right share (by norm_num)
    have short : (1 - 2 ^ (-53 : Int)) * m * (1 + 2 ^ (-53 : Int)) < (m : Rat) := by
      norm_num
      linarith
    linarith
  · rw [absolute] at under
    have tiny : (2 : Rat) ^ (-1075 : Int) < 2 ^ (-53 : Int) :=
      zpow_lt_zpow_right₀ (by norm_num) (by norm_num)
    have gap : (2 : Rat) ^ (-53 : Int) ≤ m * 2 ^ (-53 : Int) :=
      le_mul_of_one_le_left (by positivity) one
    linarith

/-- A share below 1 of a natural number is still below it when it is rounded. -/
theorem exists_share {x most : Float} {p : Rat} {m : Nat} (finite : exact x = rat p)
    (nonneg : 0 ≤ p) (below : p < 1) (whole : exact most = rat m) (positive : 0 < m)
    (fits : m < 2 ^ 52) : ∃ v, exact (x * most) = rat v ∧ 0 ≤ v ∧ v < m := by
  have distance := le_of_lt_one finite nonneg below
  have one : (1 : Rat) ≤ m := by exact_mod_cast positive
  have fits : (m : Rat) < 2 ^ 52 := by exact_mod_cast fits
  have product : 0 ≤ p * m := mul_nonneg nonneg (by linarith)
  have notGreat : |p * m| < 2 ^ (1023 : Int) := by
    rw [abs_of_nonneg product]
    calc p * m ≤ m := mul_le_of_le_one_left (by linarith) below.le
      _ < 2 ^ (52 : Int) := by exact_mod_cast fits
      _ ≤ 2 ^ (1023 : Int) := zpow_le_zpow_right₀ (by norm_num) (by norm_num)
  obtain ⟨v, rounded, close⟩ := (exact_mul finite whole).rounds.exists_rat notGreat
  exact ⟨v, rounded, nonneg_of_close rounded product close, lt_of_close nonneg distance one close⟩

end RuleAdvisor.Double
