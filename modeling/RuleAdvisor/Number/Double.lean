import RuleAdvisor.Number
import RuleAdvisor.Number.Binary

/-!
Double precision as a carrier: every operation rounds once, to nearest with ties to even.
Remainders are decided on the exact values.
-/

namespace RuleAdvisor.Double

/-- Rounds once. The guards answer where the power of ten alone settles the result, since
`2 ^ (3 · exponent)` is at most `10 ^ exponent`. -/
def scientific (digits : Nat) (negated : Bool) (exponent : Nat) : Float :=
  if digits = 0 then 0.0
  else if !negated && 1024 < 3 * exponent then 1.0 / 0.0
  else if negated && digits.log2 + 1100 < 3 * exponent then 0.0
  else Float.ofScientific digits negated exponent

/-- The greatest integer that is at most `x`, with the sign of `x` where it is zero. Without a
fraction to drop, `x` is that integer itself. -/
def floor (x : Float) : Float :=
  match Binary.ofFloat? x with
  | some b =>
      if 0 ≤ b.exponent then x
      else
        let size := scientific b.floor.natAbs false 0
        if b.negative then -size else size
  | none => x

def ceil (x : Float) : Float := -floor (-x)

def least (x y : Float) : Float :=
  if x.isNaN || y.isNaN then 0.0 / 0.0
  else if x == 0.0 && y == 0.0 then -(-x + -y)
  else if y < x then y
  else x

/-- An infinite divisor leaves the whole of a finite value as remainder. -/
def isMultiple (x y : Float) : Bool :=
  match Binary.ofFloat? x, Binary.ofFloat? y with
  | some a, some b => a.isMultiple b
  | some _, none => y.isInf && x == 0.0
  | none, _ => false

/-- From `2 ^ 53` on a value stays as it is when 1 is added, so that counting goes no further. -/
def steps (x : Float) : Option Nat :=
  if x.isNaN || x < 0.0 then some 0
  else if x < scientific (powerOfTwo 53) false 0 then some ((floor x).toUInt64.toNat + 1)
  else none

instance : Number Float where
  decidableLT := inferInstance
  decidableLE := inferInstance
  scientific := scientific
  absent := 0.0 / 0.0
  floor := floor
  ceil := ceil
  least := least
  isMultiple := isMultiple
  isFinite := Float.isFinite
  isGiven _ := true
  steps := steps

end RuleAdvisor.Double
