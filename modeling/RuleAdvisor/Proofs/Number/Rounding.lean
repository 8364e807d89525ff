import RuleAdvisor.Proofs.Number.Unpacked

/-!
Rounding to 53 bits. A quotient that is divided further by powers of two keeps what rounding needs
to know of the rest, and is then rounded to the nearest, to the even one of two. So the size stored
is off by at most half a unit in its last place, and not at all if it has no more than 53 bits.
-/

namespace RuleAdvisor.Double

open Float.Model Float.Model.UnpackedFloat

def nearest (a d : Nat) : Nat :=
  if 2 * (a % d) < d then a / d
  else if 2 * (a % d) = d then a / d + a / d % 2
  else a / d + 1

theorem nearest_bounds (a d : Nat) : a / d ≤ nearest a d ∧ nearest a d ≤ a / d + 1 := by
  unfold nearest
  split
  · omega
  · split <;> omega

theorem nearest_error (a : Nat) {d : Nat} (positive : 0 < d) :
    2 * (nearest a d * d) ≤ 2 * a + d ∧ 2 * a ≤ 2 * (nearest a d * d) + d := by
  have parts := Nat.div_add_mod' a d
  have rest := Nat.mod_lt a positive
  unfold nearest
  split
  · omega
  · split
    · next even =>
        rcases Nat.mod_two_eq_zero_or_one (a / d) with isEven | isOdd
        · rw [isEven, Nat.add_zero]
          omega
        · rw [isOdd, Nat.add_mul, Nat.one_mul]
          omega
    · rw [Nat.add_mul, Nat.one_mul]
      omega

theorem nearest_mul (q : Nat) {d : Nat} (positive : 0 < d) : nearest (q * d) d = q := by
  unfold nearest
  rw [Nat.mul_mod_left, if_pos positive, Nat.mul_div_cancel q positive]

/-- A quotient: its whole part, and of the rest as much as rounding needs. -/
structure Quotient (a d : Nat) (parts : ExtendedMantissa) : Prop where
  mantissa : parts.mantissa = a / d
  roundBit : parts.roundBit = decide (d ≤ 2 * (a % d))
  stickyBit : parts.stickyBit = decide (a % d ≠ 0 ∧ 2 * (a % d) ≠ d)

theorem Quotient.start (a : Nat) {d : Nat} (positive : 0 < d) :
    Quotient a d (.ofMantissaAndAccuracy (a / d) (accuracyOfFraction (a % d) d)) := by
  unfold accuracyOfFraction
  split
  · next nothing =>
      have notHalf : ¬ d ≤ 2 * (a % d) := by omega
      constructor
      · rfl
      · exact (decide_eq_false notHalf).symm
      · exact (decide_eq_false fun rest => rest.1 nothing).symm
  · next rest =>
      rcases lt_trichotomy (2 * (a % d)) d with low | half | high
      · rw [Nat.compare_eq_lt.mpr low]
        exact ⟨rfl, (decide_eq_false low.not_ge).symm, (decide_eq_true ⟨rest, low.ne⟩).symm⟩
      · rw [Nat.compare_eq_eq.mpr half]
        exact ⟨rfl, (decide_eq_true half.ge).symm, (decide_eq_false fun both => both.2 half).symm⟩
      · rw [Nat.compare_eq_gt.mpr high]
        exact ⟨rfl, (decide_eq_true high.le).symm, (decide_eq_true ⟨rest, high.ne'⟩).symm⟩

theorem Quotient.step {a d : Nat} (positive : 0 < d) {parts : ExtendedMantissa}
    (done : Quotient a d parts) : Quotient a (d * 2) parts.shiftRightOne := by
  -- The bit that is shifted out tells which half of the doubled divisor the rest is in.
  have rest := Nat.mod_lt a positive
  have split : a % (d * 2) = a % d + d * (a / d % 2) := Nat.mod_mul
  constructor
  case mantissa =>
    show parts.mantissa / 2 = _
    rw [done.mantissa, Nat.div_div_eq_div_mul]
  case roundBit =>
    show (parts.mantissa % 2 != 0) = _
    rw [done.mantissa, split]
    rcases Nat.mod_two_eq_zero_or_one (a / d) with even | odd
    · rw [even, Nat.mul_zero, Nat.add_zero, eq_comm, bne_self_eq_false, decide_eq_false_iff_not]
      omega
    · rw [odd, Nat.mul_one, eq_comm, show (1 != 0) = true from rfl, decide_eq_true_iff]
      omega
  case stickyBit =>
    show (parts.roundBit || parts.stickyBit) = _
    rw [done.roundBit, done.stickyBit, split, Bool.eq_iff_iff]
    simp only [Bool.or_eq_true, decide_eq_true_iff]
    rcases Nat.mod_two_eq_zero_or_one (a / d) with even | odd
    · rw [even]
      omega
    · rw [odd]
      omega

theorem Quotient.shiftRight {a d : Nat} (positive : 0 < d) {parts : ExtendedMantissa}
    (done : Quotient a d parts) (k : Nat) : Quotient a (d * 2 ^ k) (parts >>> k) := by
  induction k with
  | zero => rwa [Nat.pow_zero, Nat.mul_one]
  | succ k ih =>
      rw [Nat.pow_succ, ← Nat.mul_assoc]
      exact ih.step (Nat.mul_pos positive (Nat.two_pow_pos k))

theorem mantissa_shiftRight (parts : ExtendedMantissa) (k : Nat) :
    (parts >>> k).mantissa = parts.mantissa / 2 ^ k := by
  induction k with
  | zero => rw [Nat.pow_zero, Nat.div_one]; rfl
  | succ k ih =>
      rw [Nat.pow_succ, ← Nat.div_div_eq_div_mul, ← ih]
      rfl

theorem Quotient.roundedMantissa {a d : Nat} {parts : ExtendedMantissa}
    (done : Quotient a d parts) : parts.roundedMantissa = nearest a d := by
  obtain ⟨mantissa, roundBit, stickyBit⟩ := parts
  obtain ⟨rfl, roundIs, stickyIs⟩ := done
  dsimp only at roundIs stickyIs
  unfold nearest
  -- The two bits tell whether twice the rest is below, at or above the divisor.
  rcases lt_trichotomy (2 * (a % d)) d with low | half | high
  · have round : roundBit = false := by
      rw [roundIs, decide_eq_false_iff_not]
      omega
    rw [if_pos low, round]
    cases stickyBit <;> rfl
  · have round : roundBit = true := by
      rw [roundIs, decide_eq_true_iff]
      omega
    have sticky : stickyBit = false := by
      rw [stickyIs, decide_eq_false_iff_not]
      omega
    rw [if_neg half.not_lt, if_pos half, round, sticky]
    rfl
  · have round : roundBit = true := by
      rw [roundIs, decide_eq_true_iff]
      omega
    have sticky : stickyBit = true := by
      rw [stickyIs, decide_eq_true_iff]
      omega
    rw [if_neg high.not_gt, if_neg high.ne', round, sticky]
    rfl

/-- How many bits are dropped so that 53 are left, or fewer at the least exponent. -/
def excess (m : Nat) (e : Int) : Nat := (max ((m.log2 : Int) + e - 52) (-1074) - e).toNat

theorem targetExponent_eq (m : Nat) (e : Int) :
    Format.binary64.targetExponent (totalExponent m e)
      = max ((m.log2 : Int) + e - 52) (-1074) := by
  show max ((m.log2 : Int) + 1 + e - 53) (-1074) = _
  congr 1
  ring

theorem shiftToTargetExponent_eq (m : Nat) (e : Int) (accuracy : Accuracy) :
    shiftToTargetExponent Format.binary64 m e accuracy
      = (ExtendedMantissa.ofMantissaAndAccuracy m accuracy >>> excess m e, e + excess m e) := by
  unfold shiftToTargetExponent shiftToExponent excess
  rw [targetExponent_eq]

theorem log2_le_of_lt {m : Nat} (bounded : m < 2 ^ 53) : m.log2 ≤ 52 := by
  by_cases zero : m = 0
  · simp [zero]
  · have := (Nat.log2_lt zero).mpr bounded
    omega

theorem excess_eq_zero {m : Nat} {e : Int} (bounded : m < 2 ^ 53) (least : -1074 ≤ e) :
    excess m e = 0 := by
  have := log2_le_of_lt bounded
  unfold excess
  omega

theorem excess_carry {e : Int} (least : -1074 ≤ e) : excess (2 ^ 53) e = 1 := by
  unfold excess
  rw [Nat.log2_two_pow]
  omega

theorem le_add_excess (m : Nat) (e : Int) : -1074 ≤ e + excess m e := by
  unfold excess
  omega

theorem lt_of_excess (m : Nat) (e : Int) : m < 2 ^ (53 + excess m e) := by
  refine Nat.lt_log2_self.trans_le (Nat.pow_le_pow_right (by decide) ?_)
  unfold excess
  omega

def Stored (s : Sign) (size : Rat) (u : Float.Model.UnpackedFloat) : Prop :=
  u = .zero s ∧ size = 0
    ∨ ∃ m e, ∃ canonical : Canonical m e,
      u = .finite s m e canonical.positive ∧ size = scaled m e

theorem Stored.of_mantissa (s : Sign) {m : Nat} {e : Int}
    (canonical : 0 < m → Canonical m e) :
    Stored s (scaled m e)
      (if h : m = 0 then .zero s else .finite s m e (Nat.pos_of_ne_zero h)) := by
  split
  · next zero => exact .inl ⟨rfl, by simp [scaled, zero]⟩
  · next nonzero => exact .inr ⟨m, e, canonical (Nat.pos_of_ne_zero nonzero), rfl, rfl⟩

/-- If rounding carries over to one more bit, the last bit is 0 and can be dropped. -/
theorem carry_stored (s : Sign) {m : Nat} {e : Int} (least : -1074 ≤ e) (most : m ≤ 2 ^ 53)
    (full : 2 ^ 52 ≤ m ∨ e = -1074) :
    let carried := shiftToTargetExponent Format.binary64 m e .exact
    Stored s (scaled m e) (if h : carried.1.mantissa = 0 then .zero s
      else .finite s carried.1.mantissa carried.2 (Nat.pos_of_ne_zero h)) := by
  intro carried
  rcases most.lt_or_eq with fits | rfl
  · have same : carried = (⟨m, false, false⟩, e) := by
      rw [show carried = _ from shiftToTargetExponent_eq m e .exact, excess_eq_zero fits least]
      simp only [Nat.cast_zero, add_zero]
      rfl
    rw [same]
    exact .of_mantissa s fun positive => ⟨positive, fits, least, full⟩
  · have dropped : carried = (⟨2 ^ 52, false, false⟩, e + 1) := by
      rw [show carried = _ from shiftToTargetExponent_eq (2 ^ 53) e .exact, excess_carry least]
      rfl
    have size : scaled (2 ^ 53) e = scaled (2 ^ 52) (e + 1) := by
      rw [scaled, scaled, zpow_add₀ (by norm_num) _ 1]
      push_cast
      ring
    rw [dropped, size]
    exact .of_mantissa s fun positive => ⟨positive, by decide, by omega, .inl le_rfl⟩

theorem log2_of_enough {m : Nat} {e : Int} (enough : 2 ^ 52 ≤ m ∨ e ≤ -1074) :
    m.log2 = 52 + excess m e ∨ e + excess m e = -1074 := by
  unfold excess
  rcases enough with full | lowest
  · have bits : 52 ≤ m.log2 := (Nat.le_log2 (by omega)).mpr full
    omega
  · omega

theorem two_zpow_add (e : Int) (k : Nat) : (2 : Rat) ^ (e + k) = 2 ^ e * 2 ^ k := by
  rw [zpow_add₀ (by norm_num), zpow_natCast]

section Quotients

variable {a d : Nat} {e : Int}

theorem div_excess (a d : Nat) (e : Int) :
    a / (d * 2 ^ excess (a / d) e) = a / d / 2 ^ excess (a / d) e :=
  (Nat.div_div_eq_div_mul a d _).symm

theorem nearest_excess_le (a d : Nat) (e : Int) :
    nearest a (d * 2 ^ excess (a / d) e) ≤ 2 ^ 53 := by
  have quotient : a / d / 2 ^ excess (a / d) e < 2 ^ 53 := by
    rw [Nat.div_lt_iff_lt_mul (Nat.two_pow_pos _), ← Nat.pow_add]
    exact lt_of_excess (a / d) e
  have most := (nearest_bounds a (d * 2 ^ excess (a / d) e)).2
  rw [div_excess] at most
  omega

theorem two_pow_le_of_bits (bits : (a / d).log2 = 52 + excess (a / d) e) :
    2 ^ (52 + excess (a / d) e) ≤ a / d := by
  rw [← bits]
  apply Nat.log2_self_le
  intro zero
  rw [zero, Nat.log2_zero] at bits
  omega

theorem quotient_of_bits (bits : (a / d).log2 = 52 + excess (a / d) e) :
    (2 : Rat) ^ (52 + excess (a / d) e) ≤ a / d := by
  refine le_trans ?_ Nat.cast_div_le
  exact_mod_cast two_pow_le_of_bits bits

section Positive

variable (positive : 0 < d)

include positive

theorem nearest_half_unit (k : Nat) :
    |scaled (nearest a (d * 2 ^ k)) (e + k) - a / d * 2 ^ e| ≤ 2 ^ (e + k) / 2 := by
  have divisor : (0 : Rat) < d := by exact_mod_cast positive
  obtain ⟨below, above⟩ := nearest_error a (Nat.mul_pos positive (Nat.two_pow_pos k))
  generalize nearest a (d * 2 ^ k) = n at below above ⊢
  have below : 2 * ((n : Rat) * (d * 2 ^ k)) ≤ 2 * a + d * 2 ^ k := by exact_mod_cast below
  have above : 2 * (a : Rat) ≤ 2 * (n * (d * 2 ^ k)) + d * 2 ^ k := by exact_mod_cast above
  have close : |(n : Rat) * (d * 2 ^ k) - a| ≤ d * 2 ^ k / 2 := by
    rw [abs_le]
    constructor <;> linarith
  have difference : scaled n (e + k) - a / d * 2 ^ e = 2 ^ e / d * (n * (d * 2 ^ k) - a) := by
    rw [scaled, two_zpow_add]
    field_simp
  calc |scaled n (e + k) - a / d * 2 ^ e| = 2 ^ e / d * |(n : Rat) * (d * 2 ^ k) - a| := by
        rw [difference, abs_mul, abs_of_pos (by positivity)]
    _ ≤ 2 ^ e / d * (d * 2 ^ k / 2) := mul_le_mul_of_nonneg_left close (by positivity)
    _ = 2 ^ (e + k) / 2 := by
        rw [two_zpow_add]
        field_simp

theorem scaled_nearest_of_multiple {n : Nat} {f : Int} {k : Nat} (higher : e + k ≤ f)
    (size : (a : Rat) / d * 2 ^ e = scaled n f) :
    scaled (nearest a (d * 2 ^ k)) (e + k) = a / d * 2 ^ e := by
  have divisor : (0 : Rat) < d := by exact_mod_cast positive
  obtain ⟨j, apart⟩ := Int.le.dest higher
  have whole : a = n * 2 ^ j * (d * 2 ^ k) := by
    rw [scaled, ← apart, two_zpow_add, two_zpow_add] at size
    field_simp at size
    have product : (a : Rat) = n * 2 ^ j * (d * 2 ^ k) := by linarith
    exact_mod_cast product
  have quotient : nearest a (d * 2 ^ k) = n * 2 ^ j := by
    rw [whole]
    exact nearest_mul _ (Nat.mul_pos positive (Nat.two_pow_pos k))
  rw [quotient, size, ← apart, scaled, scaled, two_zpow_add (e + k) j]
  push_cast
  ring

end Positive

variable (enough : 2 ^ 52 ≤ a / d ∨ e ≤ -1074)

include enough

theorem full_of_enough :
    2 ^ 52 ≤ nearest a (d * 2 ^ excess (a / d) e) ∨ e + excess (a / d) e = -1074 := by
  apply (log2_of_enough enough).imp_left
  intro bits
  refine le_trans ?_ (nearest_bounds a _).1
  rw [div_excess, Nat.le_div_iff_mul_le (Nat.two_pow_pos _), ← Nat.pow_add]
  exact two_pow_le_of_bits bits

theorem exponent_le_of_bits {n : Nat} {f : Int} (bounded : n < 2 ^ 53) (least : -1074 ≤ f)
    (size : (a : Rat) / d * 2 ^ e = scaled n f) : e + excess (a / d) e ≤ f := by
  by_contra lower
  have bits := (log2_of_enough enough).resolve_right (by omega)
  have tooGreat : (2 : Rat) ^ (53 : Int) * 2 ^ f ≤ scaled n f := by
    calc (2 : Rat) ^ (53 : Int) * 2 ^ f ≤ 2 ^ (52 + excess (a / d) e : Int) * 2 ^ e := by
          rw [← zpow_add₀ (by norm_num), ← zpow_add₀ (by norm_num)]
          exact zpow_le_zpow_right₀ (by norm_num) (by omega)
      _ ≤ a / d * 2 ^ e := by
          apply mul_le_mul_of_nonneg_right _ (by positivity)
          exact_mod_cast quotient_of_bits bits
      _ = scaled n f := size
  have short : scaled n f < 2 ^ (53 : Int) * 2 ^ f :=
    mul_lt_mul_of_pos_right (by exact_mod_cast bounded) (by positivity)
  exact absurd short tooGreat.not_gt

variable (positive : 0 < d)

include positive

theorem round_stored (s : Sign) :
    Stored s (scaled (nearest a (d * 2 ^ excess (a / d) e)) (e + excess (a / d) e))
      (roundWithAccuracy Format.binary64 s (a / d) e (accuracyOfFraction (a % d) d)) := by
  have least := le_add_excess (a / d) e
  have most := nearest_excess_le a d e
  have full := full_of_enough enough
  have shifted := (Quotient.start a positive).shiftRight positive (excess (a / d) e)
  rw [← shifted.roundedMantissa] at most full ⊢
  unfold roundWithAccuracy
  simp only [shiftToTargetExponent_eq (a / d) e]
  exact carry_stored s least most full

/-- The size that is stored is off by at most half a unit in the last place. -/
theorem scaled_nearest_error :
    |scaled (nearest a (d * 2 ^ excess (a / d) e)) (e + excess (a / d) e) - a / d * 2 ^ e|
      ≤ max ((a : Rat) / d * 2 ^ e * 2 ^ (-53 : Int)) (2 ^ (-1075 : Int)) := by
  refine (nearest_half_unit positive (excess (a / d) e)).trans ?_
  rcases log2_of_enough enough with bits | lowest
  · apply le_max_of_le_left
    calc (2 : Rat) ^ (e + excess (a / d) e) / 2
        = 2 ^ (52 + excess (a / d) e) * 2 ^ e * 2 ^ (-53 : Int) := by
          rw [two_zpow_add, pow_add]
          norm_num
          ring
      _ ≤ (a : Rat) / d * 2 ^ e * 2 ^ (-53 : Int) := by
          apply mul_le_mul_of_nonneg_right _ (by positivity)
          exact mul_le_mul_of_nonneg_right (quotient_of_bits bits) (by positivity)
  · apply le_max_of_le_right
    rw [lowest, show (-1075 : Int) = -1074 - 1 from rfl, zpow_sub_one₀ (by norm_num),
      div_eq_mul_inv]

end Quotients

end RuleAdvisor.Double
