import RuleAdvisor.Number

/-!
Membership shapes: piecewise linear curves that rise from 0 to 1, may stay there, and fall back.
Two equal breakpoints at an end make a shoulder, where the degree jumps.
-/

namespace RuleAdvisor.Fuzzy

inductive ShapeKind where
  | triangular
  | trapezoidal
  deriving DecidableEq

namespace ShapeKind

def name : ShapeKind → String
  | triangular => "triangular"
  | trapezoidal => "trapezoidal"

def breakpointCount : ShapeKind → Nat
  | triangular => 3
  | trapezoidal => 4

end ShapeKind

/-- A shape as written down: the number of breakpoints may be wrong. -/
structure Shape (α : Type) where
  kind : ShapeKind
  points : List α

variable {α : Type} [Number α]

def triangle (a b c x : α) : α :=
  if x < a ∨ c < x then 0
  else if x == b then 1
  else if x < b then (x - a) / (b - a)
  else (c - x) / (c - b)

/-- Rises from `a` to `b`, stays at 1 up to `c` and falls to `d`. -/
def trapezoid (a b c d x : α) : α :=
  if x < a ∨ d < x then 0
  else if b ≤ x ∧ x ≤ c then 1
  else if x < b then (x - a) / (b - a)
  else (d - x) / (d - c)

namespace Shape

def point (shape : Shape α) (index : Nat) : α := shape.points.getD index Number.absent

def degree (shape : Shape α) (x : α) : α :=
  match shape.kind with
  | .triangular => triangle (shape.point 0) (shape.point 1) (shape.point 2) x
  | .trapezoidal =>
      trapezoid (shape.point 0) (shape.point 1) (shape.point 2) (shape.point 3) x

end Shape
end RuleAdvisor.Fuzzy
