import RuleAdvisor.Text.Character

/-!
Names that resemble a mistyped word: those at the least edit distance from it, of at most three
edits, that agree with it in more than two fifths of its length. Lengths and edits are in units of
sixteen bits.
-/

namespace RuleAdvisor.CommandLine

/-- The distances of a word's beginnings from one more unit of the candidate. `row` holds those
from the units so far, `before` those from one unit fewer; `upper` and `left` are the units before
the current ones, for neighbours that changed places. -/
def nextRow (unit : Nat) (upper : Option Nat) (word before row : List Nat) : List Nat :=
  let rec go (word : List Nat) (left : Option Nat) (before row : List Nat) (leftDistance : Nat) :
      List Nat :=
    match word, row with
    | current :: rest, corner :: above :: others =>
        let plain :=
          min (min (leftDistance + 1) (above + 1)) (corner + if current = unit then 0 else 1)
        let swapped := left == some unit && upper == some current
        let distance :=
          match before with
          | twoBack :: _ => if swapped then min plain (twoBack + 1) else plain
          | [] => plain
        distance :: go rest (some current) (if left.isSome then before.tail else before)
          (above :: others) distance
    | _, _ => []
  let start := row.headD 0 + 1
  start :: go word none before row start

def editDistance (word candidate : List Nat) : Nat :=
  let rec go (upper : Option Nat) (before row : List Nat) : List Nat → Nat
    | [] => row.getLastD 0
    | unit :: rest => go (some unit) row (nextRow unit upper word before row) rest
  go none [] (List.range (word.length + 1)) candidate

def resemblance? (word candidate : List Nat) : Option Nat :=
  let longer := max word.length candidate.length
  let distance := editDistance word candidate
  if candidate.length ≤ 1 ∨ 3 < distance ∨ 5 * (longer - distance) ≤ 2 * longer then none
  else some distance

def nearestTo (word : List Char) (candidates : List String) : List String :=
  let scored := candidates.filterMap fun candidate =>
    (resemblance? (Text.units word) (Text.units candidate.toList)).map fun distance =>
      (candidate, distance)
  let least := (scored.map Prod.snd).min?
  let nearest := (scored.filter fun (_, distance) => some distance == least).map Prod.fst
  nearest.mergeSort fun a b => decide (a ≤ b)

/-- The names that may be meant by a word. Behind two dashes the word is taken for an option's name,
and the candidates are compared without their first two characters. -/
def similarTo (word : String) (candidates : List String) : List String :=
  match word.toList with
  | '-' :: '-' :: name =>
      let names := candidates.map fun candidate => String.ofList (candidate.toList.drop 2)
      (nearestTo name names).map ("--" ++ ·)
  | name => nearestTo name candidates

end RuleAdvisor.CommandLine
