/-!
The arithmetic in which every decision is computed. Each rule of the library is written once,
over any carrier of this class: doubles when it runs, exact rationals when it is reasoned about,
and either of them with missing entries. A comparison with a value that is no number is false.
-/

namespace RuleAdvisor

/-- Ordered arithmetic with values that are not finite, and possibly values that are absent. -/
class Number (α : Type) extends Add α, Sub α, Mul α, Div α, Neg α, LT α, LE α, BEq α where
  decidableLT : DecidableLT α
  decidableLE : DecidableLE α
  /-- The value `digits · 10 ^ exponent`, with the exponent negated when the flag is set. -/
  scientific (digits : Nat) (negated : Bool) (exponent : Nat) : α
  /-- What is read where no value stands. -/
  absent : α
  floor (x : α) : α
  ceil (x : α) : α
  /-- The smaller of two values: no number if either is none, and `-0` lies below `0`. -/
  least (x y : α) : α
  /-- Whether `x` divided by `y` leaves the remainder zero. -/
  isMultiple (x y : α) : Bool
  isFinite (x : α) : Bool
  /-- Whether a value stands here at all, be it a number or not. -/
  isGiven (x : α) : Bool
  /-- How many of `0, 1, 2, …` are at most `x`; none if counting them never gets past `x`. -/
  steps (x : α) : Option Nat

namespace Number

variable {α : Type} [Number α]

instance (priority := low) : OfScientific α := ⟨scientific⟩

instance (priority := low) (n : Nat) : OfNat α n := ⟨scientific n false 0⟩

instance : DecidableLT α := decidableLT

instance : DecidableLE α := decidableLE

def ofNat (n : Nat) : α := scientific n false 0

def ofInt : Int → α
  | .ofNat n => ofNat n
  | .negSucc n => -ofNat (n + 1)

def notANumber : α := 0 / 0

/-- Only what is no number differs from itself. -/
def isNaN (x : α) : Bool := !(x == x)

def isInteger (x : α) : Bool := isFinite x && floor x == x

/-- A value that is no number has no place in the range and goes to its lower end. -/
def clamp (x lower upper : α) : α :=
  if isNaN x then lower
  else if x < lower then lower
  else if upper < x then upper
  else x

end Number
end RuleAdvisor
