/-!
Counts found with few probes: how many elements at the front of a list pass a test. If all that pass
stand in front of those that do not, the count is exact whatever places are probed. If they do not,
as with values that cannot be compared, it depends on those places, and so each of them is fixed.
-/

namespace RuleAdvisor.Sorting

inductive Side where
  | front
  | back
  deriving DecidableEq

/-- The middle of the places from `lower` up to `upper`; of two, the later in the sequence. -/
def Side.middle (side : Side) (lower upper : Nat) : Nat :=
  match side with
  | front => lower + (upper - lower) / 2
  | back => upper - 1 - (upper - lower) / 2

theorem Side.le_middle (side : Side) {lower upper : Nat} (nonempty : lower < upper) :
    lower ≤ side.middle lower upper := by
  cases side with
  | front => simp only [middle]; omega
  | back => simp only [middle]; omega

theorem Side.middle_lt (side : Side) {lower upper : Nat} (nonempty : lower < upper) :
    side.middle lower upper < upper := by
  cases side with
  | front => simp only [middle]; omega
  | back => simp only [middle]; omega

def halve (side : Side) (passes : Nat → Bool) (lower upper : Nat) : Nat :=
  if nonempty : lower < upper then
    have _above := side.le_middle nonempty
    have _below := side.middle_lt nonempty
    if passes (side.middle lower upper) then
      halve side passes (side.middle lower upper + 1) upper
    else halve side passes lower (side.middle lower upper)
  else lower
termination_by upper - lower

/-- Strides over the places 1, 3, 7 and so on as long as they pass. Gives the last that did and the
first that did not, or the limit. -/
def stride (passes : Nat → Bool) (limit last next : Nat) : Nat × Nat :=
  if next < limit ∧ passes next then stride passes limit next (2 * next + 1)
  else (last, min next limit)
termination_by limit - next

def countPassing {α : Type} (side : Side) (test : α → Bool) (xs : List α) : Nat :=
  let passes (place : Nat) : Bool := xs[place]?.any test
  if passes 0 then
    let (last, next) := stride passes xs.length 0 1
    halve side passes (last + 1) next
  else 0

def insertBehind {α : Type} (before : α → α → Bool) (sorted : List α) (x : α) : List α :=
  let place := halve .front (fun place => sorted[place]?.any fun y => !before x y) 0 sorted.length
  sorted.take place ++ x :: sorted.drop place

theorem insertBehind_perm {α : Type} (before : α → α → Bool) (sorted : List α) (x : α) :
    (insertBehind before sorted x).Perm (x :: sorted) := by
  apply List.perm_middle.trans
  rw [List.take_append_drop]

end RuleAdvisor.Sorting
