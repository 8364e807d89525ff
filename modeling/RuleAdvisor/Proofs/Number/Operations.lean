import RuleAdvisor.Proofs.Number.Order
import RuleAdvisor.Proofs.Number.Rounding

/-!
Operations on doubles. What is computed from finite doubles is the exact result, rounded once, and
the exact result itself if it fits into a double. As every double is a multiple of the least
positive one, no difference of two doubles that differ is rounded to 0. So doubles are a carrier
whose finite values are ordered as numbers are.
-/

namespace RuleAdvisor.Double

open Exact Float.Model Float.Model.UnpackedFloat

/-- Half a unit in the last place of `p`, or of the least exponent. -/
def slack (p : Rat) : Rat := max (|p| * 2 ^ (-53 : Int)) (2 ^ (-1075 : Int))

/-- The value is `p` rounded, or an infinity if `p` is too great. -/
def Rounds (p : Rat) (x : Exact) : Prop :=
  (∃ q, x = rat q ∧ |q - p| ≤ slack p)
    ∨ x = posInf ∧ 2 ^ (1023 : Int) ≤ p
    ∨ x = negInf ∧ p ≤ -2 ^ (1023 : Int)

/-- A value of at most 53 bits, none of which is below the least exponent, and not too great. -/
structure Fits (p : Rat) : Prop where
  bits : ∃ (n : Nat) (f : Int), n < 2 ^ 53 ∧ -1074 ≤ f ∧ |p| = scaled n f
  notGreat : |p| < 2 ^ (1023 : Int)

/-- The value is `p` rounded, and not moved if `p` fits. -/
structure Rounded (p : Rat) (x : Exact) : Prop where
  rounds : Rounds p x
  unchanged : Fits p → x = rat p

theorem abs_signed (s : Sign) (p : Rat) : |signed s p| = |p| := by
  cases s with
  | positive => rfl
  | negative => exact abs_neg p

theorem signed_sub (s : Sign) (p q : Rat) : signed s p - signed s q = signed s (p - q) := by
  cases s with
  | positive => rfl
  | negative =>
      show -p - -q = -(p - q)
      ring

theorem slack_signed (s : Sign) (p : Rat) : slack (signed s p) = slack p := by
  rw [slack, abs_signed, slack]

theorem slack_nonneg (p : Rat) : 0 ≤ slack p := le_max_of_le_right (by positivity)

theorem rounded_self (p : Rat) : Rounded p (rat p) :=
  ⟨.inl ⟨p, rfl, by rw [sub_self, abs_zero]; exact slack_nonneg p⟩, fun _ => rfl⟩

theorem exact_pack_zero (s : Sign) :
    exactOf (Float.Model.pack (.zero s)).unpack = rat 0 := by
  have unpacked : (Float.Model.pack (.zero s)).unpack = .zero s := unpack_packedZero
  rw [unpacked]
  rfl

theorem great_of_overflow {m : Nat} {e : Int} {p : Rat} (canonical : Canonical m e)
    (tooGreat : 972 ≤ e) (nonneg : 0 ≤ p) (close : |scaled m e - p| ≤ slack p) :
    2 ^ (1023 : Int) ≤ p := by
  have full : 2 ^ 52 ≤ m := canonical.full.resolve_right (by omega)
  have size : (2 : Rat) ^ (1023 : Int) * 2 ≤ scaled m e := by
    calc (2 : Rat) ^ (1023 : Int) * 2 = 2 ^ (52 : Int) * 2 ^ (972 : Int) := by
          rw [← zpow_add_one₀ (by norm_num), ← zpow_add₀ (by norm_num)]
          rfl
      _ ≤ scaled m e := by
          apply mul_le_mul (by exact_mod_cast full) _ (by positivity) (by positivity)
          exact zpow_le_zpow_right₀ (by norm_num) tooGreat
  by_contra small
  rw [not_le] at small
  have within : slack p ≤ 2 ^ (1023 : Int) := by
    rw [slack, abs_of_nonneg nonneg, max_le_iff]
    constructor
    · exact (mul_le_of_le_one_right nonneg (by norm_num)).trans small.le
    · exact zpow_le_zpow_right₀ (by norm_num) (by norm_num)
  have off := (abs_le.mp close).2
  linarith

theorem Stored.rounds {s : Sign} {q p : Rat} {u : Float.Model.UnpackedFloat}
    (stored : Stored s q u) (nonneg : 0 ≤ p) (close : |q - p| ≤ slack p) :
    Rounds (signed s p) (exactOf (Float.Model.pack u).unpack) := by
  rcases stored with ⟨rfl, rfl⟩ | ⟨m, e, canonical, rfl, rfl⟩
  · refine .inl ⟨0, exact_pack_zero s, ?_⟩
    have zero : signed s 0 = 0 := by cases s <;> simp [signed]
    rwa [← zero, signed_sub, abs_signed, slack_signed]
  · rw [unpack_pack canonical]
    split
    · next tooGreat =>
        have great := great_of_overflow canonical tooGreat nonneg close
        cases s with
        | positive => exact .inr (.inl ⟨rfl, great⟩)
        | negative => exact .inr (.inr ⟨rfl, neg_le_neg great⟩)
    · refine .inl ⟨signed s (scaled m e), rfl, ?_⟩
      rwa [signed_sub, abs_signed, slack_signed]

theorem Stored.unchanged {s : Sign} {p : Rat} {u : Float.Model.UnpackedFloat}
    (stored : Stored s p u) (fits : Fits p) :
    exactOf (Float.Model.pack u).unpack = rat (signed s p) := by
  rcases stored with ⟨rfl, rfl⟩ | ⟨m, e, canonical, rfl, rfl⟩
  · rw [exact_pack_zero]
    cases s <;> simp [signed]
  · have nonneg := (scaled_pos (e := e) canonical.positive).le
    have notGreat := fits.notGreat
    rw [abs_of_nonneg nonneg] at notGreat
    rw [unpack_pack canonical, if_neg]
    · rfl
    · intro tooGreat
      have close : |scaled m e - scaled m e| ≤ slack (scaled m e) := by
        rw [sub_self, abs_zero]
        exact slack_nonneg _
      exact absurd (great_of_overflow canonical tooGreat nonneg close) notGreat.not_ge

theorem Fits.of_signed {s : Sign} {p : Rat} (fits : Fits (signed s p)) : Fits p := by
  obtain ⟨bits, notGreat⟩ := fits
  rw [abs_signed] at bits notGreat
  exact ⟨bits, notGreat⟩

theorem rounded_roundWithAccuracy (s : Sign) {a d : Nat} {e : Int} (positive : 0 < d)
    (enough : 2 ^ 52 ≤ a / d ∨ e ≤ -1074) :
    Rounded (signed s (a / d * 2 ^ e))
      (exactOf (Float.Model.pack (roundWithAccuracy Format.binary64 s (a / d) e
        (accuracyOfFraction (a % d) d))).unpack) := by
  have nonneg : (0 : Rat) ≤ a / d * 2 ^ e := by positivity
  have stored := round_stored enough positive s
  constructor
  · apply stored.rounds nonneg
    rw [slack, abs_of_nonneg nonneg]
    exact scaled_nearest_error enough positive
  · intro fits
    obtain ⟨n, f, bounded, least, size⟩ := fits.of_signed.bits
    rw [abs_of_nonneg nonneg] at size
    have higher := exponent_le_of_bits enough bounded least size
    rw [scaled_nearest_of_multiple positive higher size] at stored
    exact stored.unchanged fits.of_signed

theorem rounded_exact (s : Sign) {m : Nat} {e : Int} (enough : 2 ^ 52 ≤ m ∨ e ≤ -1074) :
    Rounded (signed s (scaled m e))
      (exactOf (Float.Model.pack (roundWithAccuracy Format.binary64 s m e .exact)).unpack) := by
  have rounded := rounded_roundWithAccuracy (a := m) s Nat.one_pos (by rwa [Nat.div_one])
  rwa [Nat.div_one, Nat.mod_one, Nat.cast_one, div_one] at rounded

theorem signed_mul (s t : Sign) (p q : Rat) : signed (s * t) (p * q) = signed s p * signed t q := by
  cases s <;> cases t
  · exact (neg_mul_neg p q).symm
  · exact (neg_mul p q).symm
  · exact (mul_neg p q).symm
  · rfl

theorem scaled_mul (m n : Nat) (e f : Int) :
    scaled (m * n) (e + f) = scaled m e * scaled n f := by
  rw [scaled, scaled, scaled, zpow_add₀ (by norm_num)]
  push_cast
  ring

theorem unpack_of_exact {x : Float} {p : Rat} (finite : exact x = rat p) :
    (∃ s, x.toModel.unpack = .zero s ∧ p = 0)
      ∨ ∃ s m e, ∃ canonical : Canonical m e, x.toModel.unpack = .finite s m e canonical.positive
        ∧ e ≤ 971 ∧ p = signed s (scaled m e) := by
  unfold exact at finite
  cases stored : x.toModel.unpack with
  | notANumber =>
      rw [stored] at finite
      cases finite
  | infinity s =>
      rw [stored] at finite
      cases s <;> cases finite
  | zero s =>
      rw [stored] at finite
      cases finite
      exact .inl ⟨s, rfl, rfl⟩
  | finite s m e positive =>
      rw [stored] at finite
      cases finite
      obtain ⟨canonical, most⟩ := canonical_of_unpack stored
      exact .inr ⟨s, m, e, canonical, rfl, most, rfl⟩

theorem eq_of_exact_eq {x y : Float} {v : Rat} (nonzero : v ≠ 0) (first : exact x = rat v)
    (second : exact y = rat v) : x = y := by
  have unpacked : x.toModel.unpack = y.toModel.unpack := by
    rcases unpack_of_exact first with ⟨_, _, rfl⟩ | ⟨s, m, e, canonical, stored, _, size⟩
    · exact absurd rfl nonzero
    · rcases unpack_of_exact second with ⟨_, _, rfl⟩ | ⟨t, n, f, alsoCanonical, other, _, alsoSize⟩
      · exact absurd rfl nonzero
      · have positive := scaled_pos (e := e) canonical.positive
        have alsoPositive := scaled_pos (e := f) alsoCanonical.positive
        have sizes : signed s (scaled m e) = signed t (scaled n f) := size.symm.trans alsoSize
        -- Sizes are positive, so equal values have equal signs, and then equal sizes.
        have signs : s = t := by
          cases s <;> cases t
          · rfl
          · exact absurd sizes (by simp only [signed]; linarith)
          · exact absurd sizes (by simp only [signed]; linarith)
          · rfl
        subst signs
        have same : scaled m e = scaled n f := by
          cases s
          · exact neg_inj.mp sizes
          · exact sizes
        obtain ⟨rfl, rfl⟩ := eq_of_scaled_eq canonical alsoCanonical same
        rw [stored, other]
  obtain ⟨⟨xBits, xValid⟩⟩ := x
  obtain ⟨⟨yBits, yValid⟩⟩ := y
  have bits : xBits.toBitVec = yBits.toBitVec := (unpack_inj_of_valid xValid yValid).mp unpacked
  obtain rfl : xBits = yBits := UInt64.eq_of_toBitVec_eq bits
  rfl

theorem roundToInt_of_nat {m n : Nat} {e : Int} (size : scaled m e = n) :
    roundToInt .positive m e = n := by
  show (((ExtendedMantissa.ofMantissaAndAccuracy (m <<< (e - 0).toNat) .exact
    >>> (0 - (e - (e - 0).toNat)).toNat).mantissa : Nat) : Int) = n
  rw [mantissa_shiftRight]
  show ((m <<< (e - 0).toNat / 2 ^ (0 - (e - (e - 0).toNat)).toNat : Nat) : Int) = n
  rw [Nat.cast_inj]
  rcases Int.eq_nat_or_neg e with ⟨k, rfl | rfl⟩
  · rw [scaled, zpow_natCast] at size
    have whole : m * 2 ^ k = n := by exact_mod_cast size
    simp [Nat.shiftLeft_eq, whole]
  · rw [scaled, zpow_neg, zpow_natCast, ← div_eq_mul_inv, div_eq_iff (by positivity)] at size
    have whole : m = n * 2 ^ k := by exact_mod_cast size
    simp [whole]

theorem toNat_toUInt64 {x : Float} {n : Nat} (whole : exact x = rat n) (small : n < 2 ^ 64) :
    x.toUInt64.toNat = n := by
  show (UInt64.ofNatClamp (toInt 0 _ x.toModel.unpack).toNat).toNat = n
  rcases unpack_of_exact whole with ⟨s, stored, zero⟩ | ⟨s, m, e, canonical, stored, _, size⟩
  · rw [stored, Nat.cast_eq_zero.mp zero]
    rfl
  · cases s with
    | negative =>
        have positive := scaled_pos (e := e) canonical.positive
        have nonneg := Nat.cast_nonneg (α := Rat) n
        simp only [signed] at size
        linarith
    | positive =>
        have converted : toInt 0 (UInt64.size - 1) x.toModel.unpack = n := by
          rw [stored]
          exact roundToInt_of_nat size.symm
        rw [converted, Int.toNat_natCast, UInt64.toNat_ofNatClamp_of_lt small]

theorem exact_mul {x y : Float} {p q : Rat} (first : exact x = rat p) (second : exact y = rat q) :
    Rounded (p * q) (exact (x * y)) := by
  show Rounded (p * q) (exactOf (Float.Model.pack
    (UnpackedFloat.mul Format.binary64 x.toModel.unpack y.toModel.unpack)).unpack)
  rcases unpack_of_exact first with ⟨s, stored, rfl⟩ | ⟨s, m, e, canonical, stored, _, rfl⟩
  · rw [stored, zero_mul]
    rcases unpack_of_exact second with ⟨t, stored, rfl⟩ | ⟨t, n, f, _, stored, _, rfl⟩
    · rw [stored]
      exact exact_pack_zero (s * t) ▸ rounded_self 0
    · rw [stored]
      exact exact_pack_zero (s * t) ▸ rounded_self 0
  · rcases unpack_of_exact second with ⟨t, other, rfl⟩ | ⟨t, n, f, otherCanonical, other, _, rfl⟩
    · rw [stored, other, mul_zero]
      exact exact_pack_zero (s * t) ▸ rounded_self 0
    · rw [stored, other, ← signed_mul, ← scaled_mul]
      apply rounded_exact (s * t)
      rcases canonical.full with full | lowest
      · exact .inl (full.trans (Nat.le_mul_of_pos_right m otherCanonical.positive))
      · rcases otherCanonical.full with full | alsoLowest
        · exact .inl (full.trans (Nat.le_mul_of_pos_left n canonical.positive))
        · right
          omega

theorem scaled_shiftLeft (m k : Nat) (e : Int) : scaled (m <<< k) (e - k) = scaled m e := by
  rw [scaled, scaled, Nat.shiftLeft_eq, zpow_sub₀ (by norm_num), zpow_natCast]
  push_cast
  field_simp

theorem rounded_round (s : Sign) {m : Nat} (e : Int) (positive : 0 < m) :
    Rounded (signed s (scaled m e))
      (exactOf (Float.Model.pack (UnpackedFloat.round Format.binary64 s m e)).unpack) := by
  simp only [UnpackedFloat.round, decreaseExponent, targetExponent_eq]
  generalize spare : (e - max ((m.log2 : Int) + e - 52) (-1074)).toNat = k
  rw [← scaled_shiftLeft m k e]
  apply rounded_exact
  by_cases lowest : e - k ≤ -1074
  · exact .inr lowest
  · left
    have bits : 52 ≤ m.log2 + k := by omega
    calc 2 ^ 52 ≤ 2 ^ (m.log2 + k) := Nat.pow_le_pow_right (by decide) bits
      _ = 2 ^ m.log2 * 2 ^ k := Nat.pow_add 2 _ _
      _ ≤ m <<< k := by
        rw [Nat.shiftLeft_eq]
        exact Nat.mul_le_mul_right _ (Nat.log2_self_le positive.ne')

theorem rounded_normalize (m : Int) (e : Int) :
    Rounded (m * 2 ^ e) (exactOf
      (Float.Model.pack (UnpackedFloat.normalize Format.binary64 m e .positive)).unpack) := by
  unfold UnpackedFloat.normalize
  rcases lt_trichotomy m 0 with below | rfl | above
  · rw [Int.compare_eq_lt.mpr below]
    have size : (m : Rat) * 2 ^ e = signed .negative (scaled (-m).toNat e) := by
      have natural : (((-m).toNat : Int) : Rat) = -m := by
        rw [Int.toNat_of_nonneg (by omega)]
        push_cast
        rfl
      rw [signed, scaled, ← Int.cast_natCast, natural]
      ring
    rw [size]
    exact rounded_round .negative e (by omega)
  · rw [Int.cast_zero, zero_mul]
    exact exact_pack_zero .positive ▸ rounded_self 0
  · rw [Int.compare_eq_gt.mpr above]
    have size : (m : Rat) * 2 ^ e = signed .positive (scaled m.toNat e) := by
      rw [signed, scaled, ← Int.cast_natCast, Int.toNat_of_nonneg above.le]
    rw [size]
    exact rounded_round .positive e (by omega)

theorem signed_scaled (s : Sign) (m : Nat) (e : Int) :
    signed s (scaled m e) = s.apply m * 2 ^ e := by
  cases s with
  | positive => rfl
  | negative =>
      rw [signed, scaled, Sign.apply]
      push_cast
      ring

theorem signed_scaled_lower (s : Sign) (m : Nat) {e lower : Int} (below : lower ≤ e) :
    signed s (scaled m e) = (s.apply (m <<< (e - lower).toNat : Nat) : Int) * 2 ^ lower := by
  have exponent : lower = e - ((e - lower).toNat : Nat) := by omega
  rw [← signed_scaled, ← scaled_shiftLeft m (e - lower).toNat e, ← exponent]

theorem exact_pack {s : Sign} {m : Nat} {e : Int} (canonical : Canonical m e) (most : e ≤ 971) :
    exactOf (Float.Model.pack (.finite s m e canonical.positive)).unpack
      = rat (signed s (scaled m e)) := by
  rw [unpack_pack canonical, if_neg (by omega)]
  rfl

theorem signed_neg (s : Sign) (p : Rat) : signed (-s) p = -signed s p := by
  cases s with
  | positive => rfl
  | negative => exact (neg_neg p).symm

theorem unpack_neg (x : Float) : (-x).toModel.unpack = x.toModel.unpack.neg := by
  show (Float.Model.pack x.toModel.unpack.neg).unpack = _
  cases stored : x.toModel.unpack with
  | notANumber => rfl
  | infinity s => cases s <;> rfl
  | zero s => exact unpack_packedZero
  | finite s m e positive =>
      obtain ⟨canonical, most⟩ := canonical_of_unpack stored
      exact (unpack_pack canonical _).trans (if_neg (by omega))

theorem exact_neg (x : Float) : exact (-x) = -exact x := by
  rw [exact, unpack_neg, exact]
  cases x.toModel.unpack with
  | notANumber => rfl
  | infinity s => cases s <;> rfl
  | zero s => exact congrArg rat neg_zero.symm
  | finite s m e positive => exact congrArg rat (signed_neg s _)

theorem exact_add {x y : Float} {p q : Rat} (first : exact x = rat p) (second : exact y = rat q) :
    Rounded (p + q) (exact (x + y)) := by
  show Rounded (p + q) (exactOf (Float.Model.pack
    (UnpackedFloat.add Format.binary64 x.toModel.unpack y.toModel.unpack)).unpack)
  rcases unpack_of_exact first with ⟨s, stored, rfl⟩ | ⟨s, m, e, canonical, stored, most, rfl⟩
  · rcases unpack_of_exact second with ⟨t, other, rfl⟩
      | ⟨t, n, f, otherCanonical, other, otherMost, rfl⟩
    · rw [stored, other, add_zero]
      cases s <;> cases t <;> exact exact_pack_zero _ ▸ rounded_self 0
    · rw [stored, other, zero_add]
      exact exact_pack otherCanonical otherMost ▸ rounded_self _
  · rcases unpack_of_exact second with ⟨t, other, rfl⟩
      | ⟨t, n, f, otherCanonical, other, otherMost, rfl⟩
    · rw [stored, other, add_zero]
      exact exact_pack canonical most ▸ rounded_self _
    · rw [stored, other, signed_scaled_lower s m (min_le_left e f),
        signed_scaled_lower t n (min_le_right e f), ← add_mul, ← Int.cast_add]
      exact rounded_normalize _ _

theorem apply_neg (s : Sign) (n : Int) : (-s).apply n = -s.apply n := by
  cases s with
  | positive => rfl
  | negative => exact (neg_neg n).symm

theorem unpacked_sub_eq (u v : Float.Model.UnpackedFloat) :
    u.sub Format.binary64 v = u.add Format.binary64 v.neg := by
  cases u with
  | finite s m e _ =>
      cases v with
      | finite t n f _ =>
          simp only [UnpackedFloat.sub, UnpackedFloat.add, UnpackedFloat.neg, apply_neg,
            Int.sub_eq_add_neg]
      | _ => rfl
  | _ => cases v <;> rfl

theorem exact_sub {x y : Float} {p q : Rat} (first : exact x = rat p) (second : exact y = rat q) :
    Rounded (p - q) (exact (x - y)) := by
  have flipped : exact (-y) = rat (-q) := by rw [exact_neg, second, rat_neg]
  have same : exact (x - y) = exact (x + -y) := by
    show exactOf (Float.Model.pack (UnpackedFloat.sub _ _ _)).unpack
      = exactOf (Float.Model.pack (UnpackedFloat.add _ _ (-y).toModel.unpack)).unpack
    rw [unpack_neg, unpacked_sub_eq]
  rw [same, sub_eq_add_neg]
  exact exact_add first flipped

theorem signed_div (s t : Sign) (p q : Rat) : signed (s / t) (p / q) = signed s p / signed t q := by
  cases s <;> cases t
  · exact (neg_div_neg_eq p q).symm
  · exact (neg_div q p).symm
  · exact (div_neg p).symm
  · rfl

theorem divCore_eq (m n : Nat) (e f : Int) :
    ∃ (k : Nat) (t : Int), divCore Format.binary64 m e n f
        = ((m <<< k) / n, t, accuracyOfFraction ((m <<< k) % n) n)
      ∧ t + k = e - f
      ∧ t ≤ max ((m.log2 : Int) + e - (n.log2 + f) - 53) (-1074) := by
  have target : Format.binary64.targetExponent (totalExponent m e - totalExponent n f)
      = max ((m.log2 : Int) + e - (n.log2 + f) - 53) (-1074) := by
    show max (((m.log2 : Int) + 1 + e) - ((n.log2 : Int) + 1 + f) - 53) (-1074) = _
    congr 1
    ring
  unfold divCore
  rw [target]
  refine ⟨_, _, rfl, ?_, ?_⟩ <;> omega

/-- The dividend is shifted until the quotient fills its bits. -/
theorem enough_of_shift {m n k : Nat} {e f t : Int} (dividend : 0 < m) (divisor : 0 < n)
    (shift : t + k = e - f) (low : t ≤ max ((m.log2 : Int) + e - (n.log2 + f) - 53) (-1074)) :
    2 ^ 52 ≤ (m <<< k) / n ∨ t ≤ -1074 := by
  by_cases lowest : t ≤ -1074
  · exact .inr lowest
  · left
    have bits : n.log2 + 1 + 52 ≤ m.log2 + k := by omega
    rw [Nat.le_div_iff_mul_le divisor, Nat.shiftLeft_eq]
    calc 2 ^ 52 * n ≤ 2 ^ 52 * 2 ^ (n.log2 + 1) := Nat.mul_le_mul_left _ Nat.lt_log2_self.le
      _ = 2 ^ (n.log2 + 1 + 52) := by rw [← Nat.pow_add, Nat.add_comm]
      _ ≤ 2 ^ (m.log2 + k) := Nat.pow_le_pow_right (by decide) bits
      _ ≤ m * 2 ^ k := by
        rw [Nat.pow_add]
        exact Nat.mul_le_mul_right _ (Nat.log2_self_le dividend.ne')

theorem scaled_div (m : Nat) {n k : Nat} {e f t : Int} (shift : t + k = e - f) :
    scaled m e / scaled n f = ((m <<< k : Nat) : Rat) / n * 2 ^ t := by
  obtain rfl : e = t + f + k := by omega
  have lowered := scaled_shiftLeft m k (t + f + k)
  rw [add_sub_cancel_right] at lowered
  rw [← lowered, scaled, scaled, zpow_add₀ (by norm_num)]
  field_simp

theorem exact_div {x y : Float} {p q : Rat} (first : exact x = rat p) (second : exact y = rat q)
    (nonzero : q ≠ 0) : Rounded (p / q) (exact (x / y)) := by
  show Rounded (p / q) (exactOf (Float.Model.pack
    (UnpackedFloat.div Format.binary64 x.toModel.unpack y.toModel.unpack)).unpack)
  rcases unpack_of_exact second with ⟨t, other, rfl⟩ | ⟨t, n, f, divisor, other, _, rfl⟩
  · exact absurd rfl nonzero
  · rcases unpack_of_exact first with ⟨s, stored, rfl⟩ | ⟨s, m, e, canonical, stored, _, rfl⟩
    · rw [stored, other, zero_div]
      exact exact_pack_zero (s / t) ▸ rounded_self 0
    · obtain ⟨k, lower, core, shift, low⟩ := divCore_eq m n e f
      rw [stored, other, ← signed_div, scaled_div m shift]
      simp only [UnpackedFloat.div, core]
      exact rounded_roundWithAccuracy (s / t) divisor.positive
        (enough_of_shift canonical.positive divisor.positive shift low)

theorem Rounds.ne_nan {p : Rat} {x : Exact} (rounds : Rounds p x) : x ≠ nan := by
  rcases rounds with ⟨q, rfl, _⟩ | ⟨rfl, _⟩ | ⟨rfl, _⟩ <;> exact fun same => nomatch same

/-- Every finite double is a multiple of the least positive one. -/
theorem exists_units {x : Float} {p : Rat} (finite : exact x = rat p) :
    ∃ units : Int, p = units * 2 ^ (-1074 : Int) := by
  rcases unpack_of_exact finite with ⟨_, _, rfl⟩ | ⟨s, m, e, canonical, _, _, rfl⟩
  · exact ⟨0, by simp⟩
  · exact ⟨_, signed_scaled_lower s m canonical.least⟩

/-- A positive difference of two doubles is not rounded to 0. -/
theorem Rounds.pos_of_lt {p q : Rat} {x y : Float} {z : Exact} (first : exact x = rat p)
    (second : exact y = rat q) (rounds : Rounds (p - q) z) (less : q < p) : 0 < z := by
  have positive : 0 < p - q := by linarith
  rcases rounds with ⟨r, rfl, close⟩ | ⟨rfl, _⟩ | ⟨rfl, small⟩
  · rw [rat_pos]
    obtain ⟨k, rfl⟩ := exists_units first
    obtain ⟨l, rfl⟩ := exists_units second
    rw [← sub_mul] at positive close
    -- Both are multiples of the least double, so they differ by one of it or more.
    have oneUnit : (1 : Rat) ≤ k - l := by
      have more : (0 : Rat) < ((k - l : Int) : Rat) := by
        rw [Int.cast_sub]
        exact (mul_pos_iff_of_pos_right (by positivity)).mp positive
      have atLeast : (1 : Int) ≤ k - l := Int.cast_pos.mp more
      exact_mod_cast atLeast
    have unit : (2 : Rat) ^ (-1074 : Int) = 2 ^ (-1075 : Int) * 2 := by
      rw [← zpow_add_one₀ (by norm_num)]
      rfl
    have half : (0 : Rat) < 2 ^ (-1075 : Int) := by positivity
    have small : slack ((k - l) * 2 ^ (-1074 : Int)) < (k - l) * 2 ^ (-1074 : Int) := by
      rw [slack, abs_of_pos positive, max_lt_iff]
      constructor
      · exact mul_lt_of_lt_one_right positive (by norm_num)
      · rw [unit]
        nlinarith
    have off := (abs_le.mp close).1
    linarith
  · rfl
  · have great : (0 : Rat) < 2 ^ (1023 : Int) := by positivity
    exact absurd (small.trans (neg_nonpos.mpr great.le)) (not_le.mpr positive)

theorem Rounds.neg {p : Rat} {x : Exact} (rounds : Rounds p x) : Rounds (-p) (-x) := by
  rcases rounds with ⟨q, rfl, close⟩ | ⟨rfl, great⟩ | ⟨rfl, great⟩
  · refine .inl ⟨-q, rfl, ?_⟩
    rwa [neg_sub_neg, abs_sub_comm, slack, abs_neg]
  · exact .inr (.inr ⟨rfl, neg_le_neg great⟩)
  · exact .inr (.inl ⟨rfl, le_neg_of_le_neg great⟩)

theorem Rounds.neg_of_lt {p q : Rat} {x y : Float} {z : Exact} (first : exact x = rat p)
    (second : exact y = rat q) (rounds : Rounds (p - q) z) (less : p < q) : z < 0 := by
  have flipped := rounds.neg
  rw [neg_sub] at flipped
  have positive := flipped.pos_of_lt second first less
  cases z with
  | rat r =>
      rw [rat_neg, rat_pos] at positive
      rw [literal_eq, rat_lt, Nat.cast_zero]
      linarith
  | negInf => rfl
  | posInf => exact absurd positive Bool.false_ne_true
  | nan => exact absurd positive Bool.false_ne_true

theorem exists_exact {x : Float} (finite : Number.isFinite x = true) : ∃ p, exact x = rat p := by
  rw [← isFinite_iff, ← isFinite_eq_exact]
  exact finite

theorem exact_zero : exact (Number.ofNat 0) = 0 := by
  rw [literal_eq]
  rfl

instance : Complete Float where
  isFinite_zero := rfl
  not_lt_iff first second := by
    rw [lt_iff_exact, le_iff_exact]
    exact FiniteOrder.not_lt_iff ((isFinite_eq_exact _).symm.trans first)
      ((isFinite_eq_exact _).symm.trans second)
  le_refl finite := by
    rw [le_iff_exact]
    exact FiniteOrder.le_refl ((isFinite_eq_exact _).symm.trans finite)
  le_trans first second third := by
    rw [le_iff_exact, le_iff_exact, le_iff_exact]
    exact FiniteOrder.le_trans ((isFinite_eq_exact _).symm.trans first)
      ((isFinite_eq_exact _).symm.trans second) ((isFinite_eq_exact _).symm.trans third)
  beq_iff first second := by
    rw [beq_eq_exact, le_iff_exact, le_iff_exact]
    exact FiniteOrder.beq_iff ((isFinite_eq_exact _).symm.trans first)
      ((isFinite_eq_exact _).symm.trans second)
  sub_pos {x y} first second := by
    intro less
    obtain ⟨p, exactP⟩ := exists_exact first
    obtain ⟨q, exactQ⟩ := exists_exact second
    rw [lt_iff_exact, exactP, exactQ, rat_lt] at less
    have above := (exact_sub exactQ exactP).rounds.pos_of_lt exactQ exactP less
    show Number.ofNat 0 < y - x
    rwa [lt_iff_exact, exact_zero]
  not_sub_lt_iff first second third := by
    obtain ⟨p, exactP⟩ := exists_exact first
    obtain ⟨q, exactQ⟩ := exists_exact second
    obtain ⟨r, exactR⟩ := exists_exact third
    have number := (exact_sub exactQ exactP).rounds.ne_nan
    rw [lt_iff_exact, le_iff_exact, exactR]
    constructor
    · exact le_of_not_lt (fun same => nomatch same) number
    · exact fun atMost below => not_le_of_below below atMost
  isGiven_eq _ := rfl
  not_lt_of_lt _ _ := by
    rw [lt_iff_exact, lt_iff_exact]
    exact Exact.not_lt_of_lt

end RuleAdvisor.Double
