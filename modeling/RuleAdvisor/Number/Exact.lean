import RuleAdvisor.Number

/-!
Rational arithmetic without rounding, closed off by two infinities and a value that is no number.
There is one zero, so a nonzero rational divided by it takes the infinity of its own sign.
-/

namespace RuleAdvisor

inductive Exact where
  | rat (q : Rat)
  | posInf
  | negInf
  | nan
  deriving DecidableEq

namespace Exact

def infinity (q : Rat) : Exact :=
  if 0 < q then posInf else if q < 0 then negInf else nan

def neg : Exact → Exact
  | rat q => rat (-q)
  | posInf => negInf
  | negInf => posInf
  | nan => nan

def add : Exact → Exact → Exact
  | rat p, rat q => rat (p + q)
  | nan, _ | _, nan => nan
  | posInf, negInf | negInf, posInf => nan
  | posInf, _ | _, posInf => posInf
  | negInf, _ | _, negInf => negInf

def sub (x y : Exact) : Exact := add x (neg y)

def mul : Exact → Exact → Exact
  | rat p, rat q => rat (p * q)
  | nan, _ | _, nan => nan
  | posInf, posInf | negInf, negInf => posInf
  | posInf, negInf | negInf, posInf => negInf
  | posInf, rat q | rat q, posInf => infinity q
  | negInf, rat q | rat q, negInf => infinity (-q)

def div : Exact → Exact → Exact
  | rat p, rat q => if q = 0 then infinity p else rat (p / q)
  | rat _, posInf | rat _, negInf => rat 0
  | posInf, rat q => if q < 0 then negInf else posInf
  | negInf, rat q => if q < 0 then posInf else negInf
  | _, _ => nan

def below : Exact → Exact → Bool
  | rat p, rat q => decide (p < q)
  | rat _, posInf | negInf, rat _ | negInf, posInf => true
  | _, _ => false

/-- Equality as a comparison: a value that is no number equals nothing. -/
def same : Exact → Exact → Bool
  | rat p, rat q => decide (p = q)
  | posInf, posInf | negInf, negInf => true
  | _, _ => false

def map (f : Rat → Int) : Exact → Exact
  | rat q => rat (f q)
  | x => x

def least (x y : Exact) : Exact :=
  if x = nan ∨ y = nan then nan else if below y x then y else x

def isMultiple : Exact → Exact → Bool
  | rat p, rat q => q != 0 && (p / q).isInt
  | rat p, posInf | rat p, negInf => p == 0
  | _, _ => false

def steps : Exact → Option Nat
  | rat q => some (if q < 0 then 0 else q.floor.toNat + 1)
  | posInf => none
  | _ => some 0

instance : Number Exact where
  add := add
  sub := sub
  mul := mul
  div := div
  neg := neg
  lt x y := below x y = true
  le x y := (below x y || same x y) = true
  beq := same
  decidableLT x y := inferInstanceAs (Decidable (below x y = true))
  decidableLE x y := inferInstanceAs (Decidable ((below x y || same x y) = true))
  scientific digits negated exponent :=
    rat (if negated then digits / 10 ^ exponent else digits * 10 ^ exponent)
  absent := nan
  floor := map Rat.floor
  ceil := map Rat.ceil
  least := least
  isMultiple := isMultiple
  isFinite
    | rat _ => true
    | _ => false
  isGiven _ := true
  steps := steps

@[simp] theorem rat_add (p q : Rat) : rat p + rat q = rat (p + q) := rfl

@[simp] theorem rat_sub (p q : Rat) : rat p - rat q = rat (p - q) := by
  rw [Rat.sub_eq_add_neg]
  rfl

@[simp] theorem rat_mul (p q : Rat) : rat p * rat q = rat (p * q) := rfl

@[simp] theorem rat_neg (q : Rat) : -rat q = rat (-q) := rfl

theorem rat_div (p : Rat) {q : Rat} (nonzero : q ≠ 0) : rat p / rat q = rat (p / q) := by
  show div (rat p) (rat q) = _
  simp [div, nonzero]

@[simp] theorem rat_lt (p q : Rat) : rat p < rat q ↔ p < q := decide_eq_true_iff

@[simp] theorem rat_le (p q : Rat) : rat p ≤ rat q ↔ p ≤ q := by
  show (below (rat p) (rat q) || same (rat p) (rat q)) = true ↔ p ≤ q
  simp [below, same, Rat.le_iff_lt_or_eq]

@[simp] theorem rat_beq (p q : Rat) : (rat p == rat q) = decide (p = q) := rfl

@[simp] theorem ofNat_eq (n : Nat) : (Number.ofNat n : Exact) = rat n := by
  show rat (n * 10 ^ 0) = rat n
  simp

end Exact
end RuleAdvisor
