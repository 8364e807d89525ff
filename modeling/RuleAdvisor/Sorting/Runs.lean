import RuleAdvisor.Sorting.Joining

/-!
A stable sort by runs: what is ascending or descending already is taken as it stands, and runs are
joined with their neighbours so that their lengths stay balanced. The comparison need not be an
order. Where it is none, the result still has all the elements.
-/

namespace RuleAdvisor.Sorting

variable {α : Type}

def splitChain (related : α → α → Bool) (first : α) : List α → List α × List α
  | [] => ([], [])
  | next :: rest =>
      if related first next then
        let (chain, others) := splitChain related next rest
        (next :: chain, others)
      else ([], next :: rest)

theorem splitChain_append (related : α → α → Bool) (first : α) (xs : List α) :
    (splitChain related first xs).1 ++ (splitChain related first xs).2 = xs := by
  induction xs generalizing first with
  | nil => rfl
  | cons next rest ih =>
      by_cases kept : related first next = true
      · simp [splitChain, kept, ih]
      · simp [splitChain, kept]

/-- The run that a list begins with, turned round if it descends, and the rest. A run shorter than
`least` gets its next elements put in one by one. -/
def takeRun (before : α → α → Bool) (least : Nat) (first : α) (rest : List α) :
    List α × List α :=
  let descends := rest.head?.any fun second => before second first
  let (chain, others) := splitChain (fun a b => before b a == descends) first rest
  let run := if descends then (first :: chain).reverse else first :: chain
  let wanted := least - run.length
  ((others.take wanted).foldl (insertBehind before) run, others.drop wanted)

theorem length_takeRun_le (before : α → α → Bool) (least : Nat) (first : α) (rest : List α) :
    (takeRun before least first rest).2.length ≤ rest.length := by
  have chain := splitChain_append
    (fun a b => before b a == rest.head?.any fun second => before second first) first rest
  have lengths := congrArg List.length chain
  simp only [List.length_append] at lengths
  simp only [takeRun, List.length_drop]
  omega

/-- The length under which runs are filled up: the whole of a short list, and else a number from 32
to 64 that divides the list into nearly a power of two. -/
def leastRun (spilled : Bool) (length : Nat) : Nat :=
  if length < 64 then if spilled then length + 1 else length
  else leastRun (spilled || length % 2 == 1) (length / 2)
termination_by length

/-- Runs that wait to be joined, the latest first. -/
structure Waiting (α : Type) where
  runs : List (List α)
  patience : Nat

inductive Joint where
  | latest
  | earlier
  deriving DecidableEq

/-- The joint needed for lengths, the latest first, to grow faster than the sums of the two that
follow them. -/
def crowded? : List Nat → Option Joint
  | latest :: second :: third :: older =>
      if third ≤ second + latest ∨ older.head?.any (· ≤ third + second) then
        some (if third < latest then .earlier else .latest)
      else if second ≤ latest then some .latest
      else none
  | [latest, second] => if second ≤ latest then some .latest else none
  | _ => none

def remaining? : List Nat → Option Joint
  | latest :: _ :: third :: _ => some (if third < latest then .earlier else .latest)
  | [_, _] => some .latest
  | _ => none

namespace Waiting

def join (before : α → α → Bool) (waiting : Waiting α) (joint : Joint) : Waiting α :=
  match joint, waiting.runs with
  | .latest, right :: left :: older =>
      let (run, patience) := joinRuns before waiting.patience left right
      ⟨run :: older, patience⟩
  | .earlier, latest :: right :: left :: older =>
      let (run, patience) := joinRuns before waiting.patience left right
      ⟨latest :: run :: older, patience⟩
  | _, _ => waiting

def collapse (before : α → α → Bool) (joint? : List Nat → Option Joint) :
    (fuel : Nat) → Waiting α → Waiting α
  | 0, waiting => waiting
  | fuel + 1, waiting =>
      match joint? (waiting.runs.map List.length) with
      | none => waiting
      | some joint => collapse before joint? fuel (waiting.join before joint)

def push (before : α → α → Bool) (waiting : Waiting α) (run : List α) : Waiting α :=
  collapse before crowded? waiting.runs.length ⟨run :: waiting.runs, waiting.patience⟩

def pushAll (before : α → α → Bool) (least : Nat) (waiting : Waiting α) : List α → Waiting α
  | [] => waiting
  | first :: rest =>
      have _shorter := length_takeRun_le before least first rest
      pushAll before least (waiting.push before (takeRun before least first rest).1)
        (takeRun before least first rest).2
termination_by xs => xs.length

def elements (waiting : Waiting α) : List α := waiting.runs.reverse.flatten

end Waiting

/-- Sorts so that no element goes before its neighbour on the left; equal elements keep their
order. -/
def byRuns (before : α → α → Bool) (xs : List α) : List α :=
  let waiting := Waiting.pushAll before (leastRun false xs.length) ⟨[], leastGain⟩ xs
  (waiting.collapse before remaining? waiting.runs.length).elements

end RuleAdvisor.Sorting
