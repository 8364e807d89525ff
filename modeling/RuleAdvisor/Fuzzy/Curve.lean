import RuleAdvisor.Fuzzy.Sampling

/-!
Piecewise linear curves given by samples, and the centroid of the area below them.
-/

namespace RuleAdvisor.Fuzzy

structure Sample (α : Type) where
  position : α
  degree : α
  deriving DecidableEq

def Sample.degreeTowards {α : Type} [Number α] (left right : Sample α) (x : α) : α :=
  left.degree
    + (x - left.position) * (right.degree - left.degree) / (right.position - left.position)

abbrev Curve (α : Type) := List (Sample α)

/-- An area and its first moment about the origin. -/
structure Mass (α : Type) where
  area : α
  moment : α
  deriving DecidableEq

variable {α : Type} [Number α]

namespace Mass

def zero : Mass α := ⟨0, 0⟩

def add (m n : Mass α) : Mass α := ⟨m.area + n.area, m.moment + n.moment⟩

/-- The trapezoid below the line from one sample to the next; nothing if it has no width or no
height. -/
def below (left right : Sample α) : Mass α :=
  let width := right.position - left.position
  if width ≤ 0 ∨ (left.degree == 0 ∧ right.degree == 0) then zero
  else
    let height := left.degree + right.degree
    let area := 0.5 * width * height
    let centroid := left.position
      + (width * (left.degree + 2 * right.degree)) / (3 * height)
    ⟨area, area * centroid⟩

end Mass

namespace Curve

def ofLists : List α → List α → Curve α
  | [], _ => []
  | position :: rest, [] => ⟨position, Number.absent⟩ :: ofLists rest []
  | position :: rest, degree :: degrees => ⟨position, degree⟩ :: ofLists rest degrees

def positions (curve : Curve α) : List α := curve.map Sample.position

def degrees (curve : Curve α) : List α := curve.map Sample.degree

/-- The degree at `x`, on the line between the first two neighbours that have it between them; none
beyond the ends of the curve. -/
def degreeAt? (curve : Curve α) (x : α) : Option α :=
  (adjacent curve).findSome? fun (left, right) =>
    if left.position ≤ x ∧ x ≤ right.position then some (left.degreeTowards right x) else none

def mass (curve : Curve α) : Mass α :=
  (adjacent curve).foldl (fun total pair => total.add (Mass.below pair.1 pair.2)) Mass.zero

def centroid? (curve : Curve α) : Option α :=
  let mass := Curve.mass curve
  if mass.area ≤ 0 then none else some (mass.moment / mass.area)

end Curve
end RuleAdvisor.Fuzzy
