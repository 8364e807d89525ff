import RuleAdvisor.Number

/-!
Numbers as they are entered: one may be missing. A missing entry is equal only to another missing
entry, lies in no order, and makes every result computed from it no number.
-/

namespace RuleAdvisor

inductive Entry (α : Type) where
  | missing
  | given (value : α)
  deriving DecidableEq

namespace Entry

variable {α : Type} [Number α]

def map (f : α → α) : Entry α → Entry α
  | given x => given (f x)
  | missing => given Number.notANumber

def combine (f : α → α → α) : Entry α → Entry α → Entry α
  | given x, given y => given (f x y)
  | _, _ => given Number.notANumber

def both (f : α → α → Bool) : Entry α → Entry α → Bool
  | given x, given y => f x y
  | _, _ => false

def equal : Entry α → Entry α → Bool
  | missing, missing => true
  | x, y => both (· == ·) x y

instance : Number (Entry α) where
  add := combine (· + ·)
  sub := combine (· - ·)
  mul := combine (· * ·)
  div := combine (· / ·)
  neg := map (-·)
  lt x y := both (fun a b => decide (a < b)) x y = true
  le x y := both (fun a b => decide (a ≤ b)) x y = true
  beq := equal
  decidableLT _ _ := inferInstanceAs (Decidable (_ = true))
  decidableLE _ _ := inferInstanceAs (Decidable (_ = true))
  scientific digits negated exponent := given (Number.scientific digits negated exponent)
  absent := missing
  floor := map Number.floor
  ceil := map Number.ceil
  least := combine Number.least
  isMultiple := both Number.isMultiple
  isFinite
    | given x => Number.isFinite x
    | missing => false
  isGiven
    | given x => Number.isGiven x
    | missing => false
  steps
    | given x => Number.steps x
    | missing => some 0

@[simp] theorem given_lt (x y : α) : given x < given y ↔ x < y := decide_eq_true_iff

@[simp] theorem given_le (x y : α) : given x ≤ given y ↔ x ≤ y := decide_eq_true_iff

@[simp] theorem given_beq (x y : α) : (given x == given y) = (x == y) := rfl

@[simp] theorem isGiven_given (x : α) : Number.isGiven (given x) = Number.isGiven x := rfl

@[simp] theorem isGiven_missing : Number.isGiven (missing : Entry α) = false := rfl

end Entry
end RuleAdvisor
