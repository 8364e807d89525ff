import RuleAdvisor.Number.Binary

/-!
The fewest decimal digits that read back as a given double, and of those the nearest to it. All
comparisons are of natural numbers; an exact tie between two candidates goes to the even one.
-/

namespace RuleAdvisor.Decimal

def powerOfTen (exponent : Nat) : Nat := Nat.pow 10 exponent

/-- The value `digits · 10 ^ exponent`. -/
structure Scientific where
  digits : Nat
  exponent : Int
  deriving DecidableEq

namespace Scientific

def dropZeros : Nat → Scientific → Scientific
  | fuel + 1, ⟨digits, exponent⟩ =>
      if digits != 0 && digits % 10 == 0 then dropZeros fuel ⟨digits / 10, exponent + 1⟩
      else ⟨digits, exponent⟩
  | 0, x => x

end Scientific

/-- The least `p` with `num / den < 10 ^ p`, for a positive fraction. The binary lengths place it
among four neighbours. -/
def magnitude (num den : Nat) : Int :=
  let start := (((num.log2 : Int) - den.log2 - 1) * 30103) / 100000
  let exceeds (p : Int) : Bool :=
    if 0 ≤ p then num < den * powerOfTen p.toNat else num * powerOfTen (-p).toNat < den
  ([start, start + 1, start + 2].find? exceeds).getD (start + 3)

/-- The values that round to a double, in quarters of its last place: `lower` and `upper` are the
ends, which belong to them when the mantissa is even. -/
structure Interval where
  lower : Nat
  value : Nat
  upper : Nat
  closed : Bool
  exponent : Int

/-- Below a power of two, unless it is the smallest scale, the neighbouring double is closer. -/
def Interval.ofBinary (x : Binary) : Interval :=
  let lowerGap := if x.mantissa = powerOfTwo 52 ∧ -1074 < x.exponent then 1 else 2
  ⟨4 * x.mantissa - lowerGap, 4 * x.mantissa, 4 * x.mantissa + 2,
    x.mantissa % 2 == 0, x.exponent - 2⟩

def Interval.onGrid? (interval : Interval) (exponent : Int) : Option Nat :=
  let scaleUp := powerOfTwo interval.exponent.toNat * powerOfTen (-exponent).toNat
  let unit := powerOfTwo (-interval.exponent).toNat * powerOfTen exponent.toNat
  let lower := interval.lower * scaleUp
  let value := interval.value * scaleUp
  let upper := interval.upper * scaleUp
  let inside (n : Nat) : Bool :=
    if interval.closed then lower ≤ n * unit && n * unit ≤ upper
    else lower < n * unit && n * unit < upper
  let below := value / unit
  let above := below + 1
  match inside below && below != 0, inside above with
  | true, false => some below
  | false, true => some above
  | false, false => none
  | true, true =>
      let gapBelow := value - below * unit
      let gapAbove := above * unit - value
      if gapBelow < gapAbove then some below
      else if gapAbove < gapBelow then some above
      else if below % 2 = 0 then some below
      else some above

/-- Tries one digit, then two, up to the seventeen that always suffice. -/
def shortest (x : Binary) : Scientific :=
  let interval := Interval.ofBinary x
  let size := magnitude x.ratio.1 x.ratio.2
  let candidates := (List.range 17).map fun (i : Nat) => size - 1 - (i : Int)
  let found := candidates.findSome? fun exponent =>
    (interval.onGrid? exponent).map fun digits => Scientific.mk digits exponent
  (found.getD ⟨0, 0⟩).dropZeros 17

end RuleAdvisor.Decimal
