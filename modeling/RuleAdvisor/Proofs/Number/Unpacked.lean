import Mathlib
import RuleAdvisor.Number.Double
import RuleAdvisor.Proofs.Number.Rational

/-!
Doubles and their exact values. What is stored for a double is a sign, a mantissa and an exponent,
or no finite value. The mantissa fills its 53 bits, unless the exponent is the least one, so a
comparison of exponents and then of mantissas is one of the exact values.
-/

namespace RuleAdvisor.Double

open Exact Float.Model Float.Model.UnpackedFloat

def scaled (mantissa : Nat) (exponent : Int) : Rat := mantissa * 2 ^ exponent

def signed : Sign → Rat → Rat
  | .positive, size => size
  | .negative, size => -size

def exactOf : Float.Model.UnpackedFloat → Exact
  | .notANumber => nan
  | .infinity .positive => posInf
  | .infinity .negative => negInf
  | .zero _ => rat 0
  | .finite sign mantissa exponent _ => rat (signed sign (scaled mantissa exponent))

/-- The value of a double without rounding; both zeros have the value 0. -/
def exact (x : Float) : Exact := exactOf x.toModel.unpack

/-- All bits of the mantissa are used, unless the exponent is the least one. -/
structure Canonical (mantissa : Nat) (exponent : Int) : Prop where
  positive : 0 < mantissa
  bounded : mantissa < 2 ^ 53
  least : -1074 ≤ exponent
  full : 2 ^ 52 ≤ mantissa ∨ exponent = -1074

def IsCanonical : Float.Model.UnpackedFloat → Prop
  | .finite _ mantissa exponent _ => Canonical mantissa exponent
  | _ => True

section Fields

variable (bits : BitVec Format.binary64.numBits)

theorem toNat_unpackExponent :
    (unpackExponent bits).toNat = bits.toNat / powerOfTwo 52 % powerOfTwo 11 := by
  rw [unpackExponent_def, BitVec.extractLsb'_toNat, Nat.shiftRight_eq_div_pow]
  rfl

theorem toNat_unpackMantissa : (unpackMantissa bits).toNat = bits.toNat % powerOfTwo 52 := by
  rw [unpackMantissa_def, BitVec.extractLsb'_toNat, Nat.shiftRight_zero]
  rfl

theorem isNegative_unpackSign :
    (Sign.ofBitVec (unpackSign bits) == .negative) = (bits.toNat / powerOfTwo 63 == 1) := by
  have top : (unpackSign bits).toNat = bits.toNat / powerOfTwo 63 := by
    rw [unpackSign_def, BitVec.extractLsb'_toNat, Nat.shiftRight_eq_div_pow, Nat.mod_eq_of_lt]
    · rfl
    · rw [Nat.div_lt_iff_lt_mul (by decide)]
      exact bits.isLt
  rw [← top]
  generalize unpackSign bits = sign
  revert sign
  decide

/-- The hidden bit stands before the mantissa, unless the exponent field is 0. -/
theorem unpack_eq (bits : BitVec Format.binary64.numBits) :
    UnpackedFloat.unpack Format.binary64 bits
      = if unpackExponent bits = -1#11 then
          if unpackMantissa bits = 0#52 then .infinity (Sign.ofBitVec (unpackSign bits))
          else .notANumber
        else if unpackExponent bits = 0#11 then
          if h : unpackMantissa bits = 0#52 then .zero (Sign.ofBitVec (unpackSign bits))
          else .finite (Sign.ofBitVec (unpackSign bits)) (unpackMantissa bits).toNat (-1074)
            (Nat.pos_of_ne_zero fun empty => h (BitVec.eq_of_toNat_eq empty))
        else .finite (Sign.ofBitVec (unpackSign bits)) ((unpackMantissa bits).toNat + 2 ^ 52)
          ((unpackExponent bits).toNat - 1075) (by positivity) := by
  -- Appending the hidden bit adds its value, as the fraction has no bit there.
  have hidden : (1#1 ++ unpackMantissa bits).toNat = (unpackMantissa bits).toNat + 2 ^ 52 := by
    rw [BitVec.toNat_append, ← Nat.shiftLeft_add_eq_or_of_lt (unpackMantissa bits).isLt,
      Nat.add_comm]
    rfl
  unfold UnpackedFloat.unpack
  simp only [hidden]
  split
  · rfl
  · split
    · next bottom =>
        rw [bottom]
        rfl
    · rfl

def binaryOf? : Float.Model.UnpackedFloat → Option Binary
  | .notANumber | .infinity _ => none
  | .zero sign => some ⟨sign == .negative, 0, -1074⟩
  | .finite sign mantissa exponent _ => some ⟨sign == .negative, mantissa, exponent⟩

theorem binaryOf?_unpack :
    binaryOf? (UnpackedFloat.unpack Format.binary64 bits) =
      let scale := bits.toNat / powerOfTwo 52 % powerOfTwo 11
      let fraction := bits.toNat % powerOfTwo 52
      let negative := bits.toNat / powerOfTwo 63 == 1
      if scale = 2047 then none
      else if scale = 0 then some ⟨negative, fraction, -1074⟩
      else some ⟨negative, fraction + powerOfTwo 52, (scale : Int) - 1075⟩ := by
  have isTop : unpackExponent bits = -1#11 ↔ (unpackExponent bits).toNat = 2047 :=
    BitVec.toNat_inj.symm
  have isBottom : unpackExponent bits = 0#11 ↔ (unpackExponent bits).toNat = 0 :=
    BitVec.toNat_inj.symm
  simp only [← toNat_unpackExponent, ← toNat_unpackMantissa, ← isNegative_unpackSign, unpack_eq,
    isTop, isBottom]
  split
  · split <;> rfl
  · split
    · split
      · next empty =>
          rw [empty]
          rfl
      · rfl
    · rfl

end Fields

theorem ofFloat?_eq (x : Float) : Binary.ofFloat? x = binaryOf? x.toModel.unpack :=
  (binaryOf?_unpack _).symm

theorem bounds_of_ofFloat? {x : Float} {b : Binary} (read : Binary.ofFloat? x = some b) :
    b.mantissa < 2 ^ 53 ∧ -1074 ≤ b.exponent ∧ b.exponent ≤ 971
      ∧ (2 ^ 52 ≤ b.mantissa ∨ b.exponent = -1074) := by
  simp only [Binary.ofFloat?] at read
  have fraction : x.toBits.toNat % powerOfTwo 52 < 2 ^ 52 := Nat.mod_lt _ (by decide)
  have scale : x.toBits.toNat / powerOfTwo 52 % powerOfTwo 11 < 2048 := Nat.mod_lt _ (by decide)
  have hidden : powerOfTwo 52 = 2 ^ 52 := rfl
  split at read
  · cases read
  · split at read
    · cases read
      dsimp only
      omega
    · cases read
      dsimp only
      omega

theorem canonical_of_unpack {x : Float} {s : Sign} {m : Nat} {e : Int} {positive : 0 < m}
    (stored : x.toModel.unpack = .finite s m e positive) : Canonical m e ∧ e ≤ 971 := by
  have read := ofFloat?_eq x
  rw [stored] at read
  obtain ⟨bounded, least, most, full⟩ := bounds_of_ofFloat? read
  exact ⟨⟨positive, bounded, least, full⟩, most⟩

theorem isCanonical_unpack (x : Float) : IsCanonical x.toModel.unpack := by
  cases stored : x.toModel.unpack with
  | finite s m e positive => exact (canonical_of_unpack stored).1
  | _ => trivial

section Sizes

variable {m n : Nat} {e f : Int}

theorem scaled_pos (positive : 0 < m) : 0 < scaled m e := by
  have := Nat.cast_pos (α := Rat).mpr positive
  unfold scaled
  positivity

theorem scaled_lt_scaled (first : Canonical m e) (second : Canonical n f)
    (less : e < f ∨ e = f ∧ m < n) : scaled m e < scaled n f := by
  rcases less with lower | ⟨rfl, fewer⟩
  · have full : 2 ^ 52 ≤ n := second.full.resolve_right (by have := first.least; omega)
    calc scaled m e < 2 ^ (53 : Int) * 2 ^ e := by
          apply mul_lt_mul_of_pos_right _ (by positivity)
          exact_mod_cast first.bounded
      _ = 2 ^ (52 : Int) * 2 ^ (e + 1) := by
          rw [← zpow_add₀ (by norm_num), ← zpow_add₀ (by norm_num)]
          congr 1
          ring
      _ ≤ 2 ^ (52 : Int) * 2 ^ f := by
          apply mul_le_mul_of_nonneg_left _ (by positivity)
          exact zpow_le_zpow_right₀ (by norm_num) lower
      _ ≤ scaled n f := by
          apply mul_le_mul_of_nonneg_right _ (by positivity)
          exact_mod_cast full
  · exact mul_lt_mul_of_pos_right (by exact_mod_cast fewer) (by positivity)

theorem compare_scaled (first : Canonical m e) (second : Canonical n f) :
    (compare e f).then (compare m n) = cmp (scaled m e) (scaled n f) := by
  rcases lt_trichotomy e f with lower | rfl | higher
  · rw [Int.compare_eq_lt.mpr lower,
      (cmp_eq_lt_iff _ _).mpr (scaled_lt_scaled first second (.inl lower))]
    rfl
  · rw [Int.compare_eq_eq.mpr rfl]
    rcases lt_trichotomy m n with fewer | rfl | more
    · rw [Nat.compare_eq_lt.mpr fewer,
        (cmp_eq_lt_iff _ _).mpr (scaled_lt_scaled first second (.inr ⟨rfl, fewer⟩))]
      rfl
    · rw [Nat.compare_eq_eq.mpr rfl, cmp_self_eq_eq]
      rfl
    · rw [Nat.compare_eq_gt.mpr more,
        (cmp_eq_gt_iff _ _).mpr (scaled_lt_scaled second first (.inr ⟨rfl, more⟩))]
      rfl
  · rw [Int.compare_eq_gt.mpr higher,
      (cmp_eq_gt_iff _ _).mpr (scaled_lt_scaled second first (.inl higher))]
    rfl

theorem eq_of_scaled_eq (first : Canonical m e) (second : Canonical n f)
    (same : scaled m e = scaled n f) : e = f ∧ m = n := by
  have compared := compare_scaled first second
  rwa [same, cmp_self_eq_eq, Ordering.then_eq_eq, Int.compare_eq_eq, Nat.compare_eq_eq] at compared

theorem cmp_neg_neg (p q : Rat) : cmp (-p) (-q) = cmp q p := by
  simpa using cmp_mul_neg_left (show (-1 : Rat) < 0 by norm_num) p q

end Sizes

def order? : Exact → Exact → Option Ordering
  | rat p, rat q => some (cmp p q)
  | nan, _ | _, nan => none
  | posInf, posInf | negInf, negInf => some .eq
  | posInf, _ | _, negInf => some .gt
  | negInf, _ | _, posInf => some .lt

theorem order?_eq_lt_iff (x y : Exact) : order? x y = some .lt ↔ x < y := by
  cases x <;> cases y <;> simp [order?] <;> first | rfl | exact Bool.false_ne_true

theorem order?_beq_eq (x y : Exact) : (order? x y == some .eq) = (x == y) := by
  cases x with
  | rat p =>
      cases y with
      | rat q =>
          rw [Bool.eq_iff_iff]
          simp [order?, cmp_eq_eq_iff]
      | _ => rfl
  | _ => cases y <;> rfl

theorem isLE_order?_iff (x y : Exact) : (order? x y).any Ordering.isLE = true ↔ x ≤ y := by
  cases x with
  | rat p =>
      cases y with
      | rat q =>
          rw [rat_le, ← not_lt, ← cmp_eq_gt_iff]
          show (cmp p q).isLE = true ↔ _
          cases cmp p q <;> simp
      | _ => simp [order?]; first | rfl | exact Bool.false_ne_true
  | _ => cases y <;> simp [order?] <;> first | rfl | exact Bool.false_ne_true

theorem order?_signed_zero (s : Sign) {size : Rat} (positive : 0 < size) :
    order? (rat (signed s size)) (rat 0)
        = some (match s with | .positive => .gt | .negative => .lt)
      ∧ order? (rat 0) (rat (signed s size))
        = some (match s with | .positive => .lt | .negative => .gt) := by
  have below := neg_lt_zero.mpr positive
  cases s with
  | positive =>
      exact ⟨congrArg some ((cmp_eq_gt_iff _ _).mpr positive),
        congrArg some ((cmp_eq_lt_iff _ _).mpr positive)⟩
  | negative =>
      exact ⟨congrArg some ((cmp_eq_lt_iff _ _).mpr below),
        congrArg some ((cmp_eq_gt_iff _ _).mpr below)⟩

theorem compare_finite {s t : Sign} {m n : Nat} {e f : Int} (first : Canonical m e)
    (second : Canonical n f) :
    UnpackedFloat.compare (.finite s m e first.positive) (.finite t n f second.positive)
      = some (cmp (signed s (scaled m e)) (signed t (scaled n f))) := by
  have sizes := compare_scaled first second
  have p := scaled_pos (e := e) first.positive
  have q := scaled_pos (e := f) second.positive
  cases s with
  | positive =>
      cases t with
      | positive => exact congrArg some sizes
      | negative =>
          exact congrArg some ((cmp_eq_gt_iff _ _).mpr ((neg_lt_zero.mpr q).trans p)).symm
  | negative =>
      cases t with
      | positive =>
          exact congrArg some ((cmp_eq_lt_iff _ _).mpr ((neg_lt_zero.mpr p).trans q)).symm
      | negative =>
          show some ((compare e f).then (compare m n)).swap = some (cmp (-scaled m e) (-scaled n f))
          rw [sizes, cmp_swap, cmp_neg_neg]

theorem compare_eq_order? {u v : Float.Model.UnpackedFloat} (first : IsCanonical u)
    (second : IsCanonical v) : u.compare v = order? (exactOf u) (exactOf v) := by
  cases u with
  | notANumber => rfl
  | infinity s =>
      cases v with
      | infinity t => cases s <;> cases t <;> rfl
      | _ => cases s <;> rfl
  | zero s =>
      cases v with
      | infinity t => cases t <;> rfl
      | finite t n f positive =>
          rw [exactOf, exactOf, (order?_signed_zero t (scaled_pos positive)).2]
          cases t <;> rfl
      | _ => rfl
  | finite s m e positive =>
      cases v with
      | notANumber => cases s <;> rfl
      | infinity t => cases s <;> cases t <;> rfl
      | zero t =>
          rw [exactOf, exactOf, (order?_signed_zero s (scaled_pos positive)).1]
          cases s <;> rfl
      | finite t n f _ => exact compare_finite first second

section Comparisons

variable (x y : Float)

theorem lt_iff_exact : x < y ↔ exact x < exact y := by
  have compared := compare_eq_order? (isCanonical_unpack x) (isCanonical_unpack y)
  rw [← order?_eq_lt_iff, exact, exact, ← compared]
  show Float.lt x y = true ↔ _
  rw [Float.lt, decide_eq_true_iff]
  exact beq_iff_eq

theorem le_iff_exact : x ≤ y ↔ exact x ≤ exact y := by
  have compared := compare_eq_order? (isCanonical_unpack x) (isCanonical_unpack y)
  rw [← isLE_order?_iff, exact, exact, ← compared]
  show Float.le x y = true ↔ _
  rw [Float.le, decide_eq_true_iff]
  rfl

theorem beq_eq_exact : (x == y) = (exact x == exact y) := by
  have compared := compare_eq_order? (isCanonical_unpack x) (isCanonical_unpack y)
  rw [← order?_beq_eq, exact, exact, ← compared]
  rfl

theorem isFinite_eq_exact : x.isFinite = Number.isFinite (exact x) := by
  show x.toModel.unpack.isFinite = _
  unfold exact
  cases x.toModel.unpack with
  | infinity s => cases s <;> rfl
  | _ => rfl

theorem isNaN_eq_exact : x.isNaN = decide (exact x = nan) := by
  show x.toModel.unpack.isNaN = _
  unfold exact
  cases x.toModel.unpack with
  | infinity s => cases s <;> rfl
  | _ => rfl

end Comparisons

theorem unpack_packComponents (s : Sign) (exponent : BitVec 11) (mantissa : BitVec 52) :
    UnpackedFloat.unpack Format.binary64 (packComponents Format.binary64 s exponent mantissa)
      = if exponent = -1#11 then if mantissa = 0#52 then .infinity s else .notANumber
        else if exponent = 0#11 then
          if h : mantissa = 0#52 then .zero s
          else .finite s mantissa.toNat (-1074)
            (Nat.pos_of_ne_zero fun empty => h (BitVec.eq_of_toNat_eq empty))
        else .finite s (mantissa.toNat + 2 ^ 52) (exponent.toNat - 1075) (by positivity) := by
  simp only [unpack_eq, unpackExponent_packComponents, unpackMantissa_packComponents,
    unpackSign_packComponents, Sign.ofBitVec_toBitVec]

theorem pack_finite {m : Nat} {e : Int} (canonical : Canonical m e) (s : Sign) :
    UnpackedFloat.pack Format.binary64 (.finite s m e canonical.positive)
      = if 972 ≤ e then packedInfinity Format.binary64 s
        else if 2 ^ 52 ≤ m then
          packComponents Format.binary64 s (BitVec.ofNat 11 (e + 1075).toNat) (BitVec.ofNat 52 m)
        else packComponents Format.binary64 s 0#11 (BitVec.ofNat 52 m) := by
  obtain ⟨positive, bounded, least, _⟩ := id canonical
  have bias : Format.binary64.exponentBias = 1023 := rfl
  have biased : e + (Format.binary64.exponentBias : Int)
      + (Format.binary64.mantissaBitsWithoutImplicit : Int) = e + 1075 := by
    rw [bias]
    norm_num
    omega
  have overflows : 2 ^ Format.binary64.exponentBits ≤ (e + 1075).toNat + 1 ↔ 972 ≤ e := by
    norm_num
    omega
  have normal : m.log2 + 1 = Format.binary64.mantissaBits ↔ 2 ^ 52 ≤ m := by
    show m.log2 + 1 = 53 ↔ 2 ^ 52 ≤ m
    have := @Nat.log2_eq_iff m 52 positive.ne'
    omega
  unfold UnpackedFloat.pack
  simp only [biased, overflows, normal]

/-- What is packed is stored as it is, unless its exponent is too great. -/
theorem unpack_pack {m : Nat} {e : Int} (canonical : Canonical m e) (s : Sign) :
    (Float.Model.pack (.finite s m e canonical.positive)).unpack
      = if 972 ≤ e then .infinity s else .finite s m e canonical.positive := by
  show UnpackedFloat.unpack Format.binary64 (UnpackedFloat.pack Format.binary64 _) = _
  obtain ⟨positive, bounded, least, full⟩ := id canonical
  rw [pack_finite canonical]
  split
  · cases s <;> rfl
  · split
    · next normal =>
        have scale : (BitVec.ofNat 11 (e + 1075).toNat).toNat = (e + 1075).toNat := by
          rw [BitVec.toNat_ofNat]
          omega
        have fraction : (BitVec.ofNat 52 m).toNat = m - 2 ^ 52 := by
          rw [BitVec.toNat_ofNat]
          omega
        -- The exponent field is neither of the two that stand for something else.
        have notTop : BitVec.ofNat 11 (e + 1075).toNat ≠ -1#11 := by
          rw [Ne, ← BitVec.toNat_inj, scale]
          show ¬ _ = 2047
          omega
        have notBottom : BitVec.ofNat 11 (e + 1075).toNat ≠ 0#11 := by
          rw [Ne, ← BitVec.toNat_inj, scale]
          show ¬ _ = 0
          omega
        rw [unpack_packComponents, if_neg notTop, if_neg notBottom]
        congr 1
        · rw [fraction]
          omega
        · rw [scale]
          omega
    -- At the least exponent there is no hidden bit, and the field is 0.
    · next subnormal =>
        have fraction : (BitVec.ofNat 52 m).toNat = m := by
          rw [BitVec.toNat_ofNat]
          omega
        have nonzero : BitVec.ofNat 52 m ≠ 0#52 := by
          rw [Ne, ← BitVec.toNat_inj, fraction]
          exact positive.ne'
        rw [unpack_packComponents, if_neg (by decide), if_pos rfl, dif_neg nonzero]
        congr 1
        omega

end RuleAdvisor.Double
