import RuleAdvisor.Fuzzy.RuleBase
import RuleAdvisor.Sorting.Runs

/-!
Where a curve over a domain is sampled: at a grid of steps, at the places where a shape crosses a
level, and at the union of two such lists. Positions within the tolerance count as one.
-/

namespace RuleAdvisor.Fuzzy

variable {α : Type} [Number α]

def tolerance : α := 1e-9

def adjacent {β : Type} (xs : List β) : List (β × β) := xs.zip xs.tail

/-- The first positions of a grid, closed off by the greatest value of the domain where they fall
short of it. -/
def Domain.gridOf (domain : Domain α) (step : α) (count : Nat) : List α :=
  let grid := (List.range count).map fun index => domain.least + Number.ofNat index * step
  match grid.getLast? with
  | none => grid
  | some reached =>
      if step * tolerance < domain.greatest - reached then grid ++ [domain.greatest] else grid

/-- The grid of steps over a domain; none if there is no end to the steps. -/
def Domain.samples? (domain : Domain α) (step : α) : Option (List α) :=
  (Number.steps (Number.floor ((domain.greatest - domain.least) / step + tolerance))).map
    (domain.gridOf step)

def Domain.samples (domain : Domain α) (step : α) : List α := (domain.samples? step).getD []

def Shape.crossing? (shape : Shape α) (level : α) (pair : α × α) : Option α :=
  let first := shape.degree pair.1
  let second := shape.degree pair.2
  if (first - level) * (second - level) < 0 then
    some (pair.1 + ((level - first) * (pair.2 - pair.1)) / (second - first))
  else none

def Shape.crossings (shape : Shape α) (level : α) (xs : List α) : List α :=
  (adjacent xs).filterMap (shape.crossing? level)

/-- Positions in ascending order; equal ones stay in theirs and absent ones come last. A value that
is no number is neither before nor after any other, and where one is among the positions, the order
is what sorting by runs makes of it. -/
def sortPositions (xs : List α) : List α :=
  let (given, absent) := xs.partition Number.isGiven
  let sorted :=
    if given.any Number.isNaN then Sorting.byRuns (fun a b => decide (a < b)) given
    else given.mergeSort fun a b => !decide (b < a)
  sorted ++ absent

/-- Drops every position that is not further than the tolerance from the last one kept. The
positions kept are in reverse. -/
def keepApart (kept : List α) (x : α) : List α :=
  match kept with
  | [] => [x]
  | last :: _ => if tolerance < x - last then x :: kept else kept

def mergePositions (xs extra : List α) : List α :=
  ((sortPositions (xs ++ extra)).foldl keepApart []).reverse

end RuleAdvisor.Fuzzy
