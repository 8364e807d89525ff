/-!
The finite doubles as signed multiples of powers of two, read off their bits. All exact
arithmetic on doubles (remainders, digits) works on this form.
-/

namespace RuleAdvisor

def powerOfTwo (exponent : Nat) : Nat := Nat.pow 2 exponent

/-- The value `± mantissa · 2 ^ exponent`. -/
structure Binary where
  negative : Bool
  mantissa : Nat
  exponent : Int

namespace Binary

/-- The sign and value of a finite double, and nothing for an infinity or no number. The mantissa
has the hidden bit unless the exponent is the least one, `-1074`. -/
def ofFloat? (x : Float) : Option Binary :=
  let bits := x.toBits.toNat
  let scale := bits / powerOfTwo 52 % powerOfTwo 11
  let fraction := bits % powerOfTwo 52
  let negative := bits / powerOfTwo 63 == 1
  if scale = 2047 then none
  else if scale = 0 then some ⟨negative, fraction, -1074⟩
  else some ⟨negative, fraction + powerOfTwo 52, (scale : Int) - 1075⟩

def ratio (x : Binary) : Nat × Nat :=
  if 0 ≤ x.exponent then (x.mantissa * powerOfTwo x.exponent.toNat, 1)
  else (x.mantissa, powerOfTwo (-x.exponent).toNat)

def floor (x : Binary) : Int :=
  let (a, b) := x.ratio
  (if x.negative then -(a : Int) else a) / (b : Int)

/-- Whether `x` is an integer multiple of `y`; nothing is a multiple of zero. -/
def isMultiple (x y : Binary) : Bool :=
  let (a, b) := x.ratio
  let (c, d) := y.ratio
  y.mantissa != 0 && a * d % (c * b) == 0

end Binary
end RuleAdvisor
