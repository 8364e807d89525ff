import RuleAdvisor.Sorting.Probe

/-!
Two sorted runs joined into one. Elements are taken one by one, until one run has been ahead so
often in a row that its elements are better counted and taken together. How often that is, the
patience, carries over from one joining to the next: it wears off while counting pays and grows
when it has not.
-/

namespace RuleAdvisor.Sorting

variable {α : Type}

/-- Two runs from the same end on, and what has been taken from them, the latest first. -/
structure Joining (α : Type) where
  first : List α
  second : List α
  taken : List α

/-- How often one run has to be ahead to keep its elements counted. -/
def leastGain : Nat := 7

/-- Whether an element of the second run goes ahead of one of the first. From the front the first
run is the left one, from the back the right one; of equal elements the left goes before. -/
def Side.ahead (side : Side) (before : α → α → Bool) (ofSecond ofFirst : α) : Bool :=
  match side with
  | front => before ofSecond ofFirst
  | back => before ofFirst ofSecond

namespace Joining

def takeFirst (joining : Joining α) (count : Nat) : Joining α where
  first := joining.first.drop count
  second := joining.second
  taken := (joining.first.take count).reverse ++ joining.taken

def takeSecond (joining : Joining α) (count : Nat) : Joining α where
  first := joining.first
  second := joining.second.drop count
  taken := (joining.second.take count).reverse ++ joining.taken

/-- The last element of the first run is not compared any more: it goes behind the second run. -/
def isOpen (joining : Joining α) : Bool :=
  !joining.second.isEmpty && !joining.first.tail.isEmpty

def result (joining : Joining α) : List α :=
  joining.taken.reverse ++ joining.second ++ joining.first

/-- Takes the elements one by one, until one run has been ahead as often in a row as `patience`. -/
def alternate (ahead : α → α → Bool) (patience firstWins secondWins : Nat) :
    (first second taken : List α) → Joining α
  | f :: first, s :: second, taken =>
      if ahead s f then
        if second.isEmpty ∨ patience ≤ secondWins + 1 then ⟨f :: first, second, s :: taken⟩
        else alternate ahead patience 0 (secondWins + 1) (f :: first) second (s :: taken)
      else
        if first.tail.isEmpty ∨ patience ≤ firstWins + 1 then ⟨first, s :: second, f :: taken⟩
        else alternate ahead patience (firstWins + 1) 0 first (s :: second) (f :: taken)
  | first, second, taken => ⟨first, second, taken⟩
termination_by first second => first.length + second.length

def favourFirst (side : Side) (before : α → α → Bool) (joining : Joining α) : Joining α × Nat :=
  match joining.second with
  | [] => (joining, 0)
  | s :: _ =>
      let count := countPassing side (fun f => !side.ahead before s f) joining.first
      let next := joining.takeFirst count
      (if next.isOpen then next.takeSecond 1 else next, count)

def favourSecond (side : Side) (before : α → α → Bool) (joining : Joining α) : Joining α × Nat :=
  match joining.first with
  | [] => (joining, 0)
  | f :: _ =>
      let count := countPassing side (fun s => side.ahead before s f) joining.second
      let next := joining.takeSecond count
      (if next.isOpen then next.takeFirst 1 else next, count)

def favourBoth (side : Side) (before : α → α → Bool) (joining : Joining α) : Joining α × Nat :=
  let (favour, favourOther) :=
    match side with
    | .front => (favourFirst side before, favourSecond side before)
    | .back => (favourSecond side before, favourFirst side before)
  let (next, count) := favour joining
  if next.isOpen then
    let (last, otherCount) := favourOther next
    (last, max count otherCount)
  else (next, count)

def gallop (side : Side) (before : α → α → Bool) :
    (fuel patience : Nat) → Joining α → Joining α × Nat
  | 0, patience, joining => (joining, patience)
  | fuel + 1, patience, joining =>
      let (next, gain) := favourBoth side before joining
      if !next.isOpen then (next, patience)
      else if leastGain ≤ gain then gallop side before fuel (max 1 (patience - 1)) next
      else (next, patience + 1)

def run (side : Side) (before : α → α → Bool) :
    (fuel patience : Nat) → Joining α → Joining α × Nat
  | 0, patience, joining => (joining, patience)
  | fuel + 1, patience, joining =>
      if !joining.isOpen then (joining, patience)
      else
        let next := alternate (side.ahead before) patience 0 0
          joining.first joining.second joining.taken
        if !next.isOpen then (next, patience)
        else
          let (galloped, patience) := gallop side before fuel patience next
          run side before fuel patience galloped

/-- Joins from the front, where the right run's head is known to go ahead, or from the back, where
the left run's last element is. -/
def joinFrom (side : Side) (before : α → α → Bool) (patience : Nat) (left right : List α) :
    List α × Nat :=
  let fuel := left.length + right.length
  match side with
  | .front =>
      let (done, patience) := run side before fuel patience (takeSecond ⟨left, right, []⟩ 1)
      (done.result, patience)
  | .back =>
      let (done, patience) :=
        run side before fuel patience (takeSecond ⟨right.reverse, left.reverse, []⟩ 1)
      (done.result.reverse, patience)

end Joining

/-- Joins neighbouring runs. What stands in its place already is left out: the beginning of the left
run and the end of the right one. The rest is joined from the end of the shorter part. -/
def joinRuns (before : α → α → Bool) (patience : Nat) (left right : List α) : List α × Nat :=
  let placed := countPassing .front (fun x => right.head?.any fun y => !before y x) left
  let leftRest := left.drop placed
  let settled :=
    countPassing .back (fun y => leftRest.getLast?.any fun x => !before y x) right.reverse
  let moving := right.length - settled
  let rightRest := right.take moving
  if leftRest.isEmpty ∨ rightRest.isEmpty then (left ++ right, patience)
  else
    let side : Side := if leftRest.length ≤ rightRest.length then .front else .back
    let (joined, patience) := Joining.joinFrom side before patience leftRest rightRest
    (left.take placed ++ joined ++ right.drop moving, patience)

end RuleAdvisor.Sorting
