import RuleAdvisor.Counting.Rules

/-!
Positions of the counting game, given by the running total. A total is safe to leave when the
numbers up to the last one before the target can be spoken in rounds of `longestTurn + 1`: the
other player can then always be answered until only the target is left.
-/

namespace RuleAdvisor.Counting.Rules

variable {α : Type} [Number α]

def lastTotal (rules : Rules α) : α := rules.target - 1

def checkTotal (rules : Rules α) (total : α) : Except (Refusal α) Unit :=
  if !Number.isInteger total ∨ total < 0 ∨ rules.lastTotal < total then
    .error (.total rules.lastTotal total)
  else .ok ()

def isSafe (rules : Rules α) (total : α) : Bool :=
  let remaining := rules.target - 1 - total
  decide (0 ≤ remaining) && Number.isMultiple remaining (rules.longestTurn + 1)

/-- The smallest safe total above `total`; none from the last total on. -/
def nextSafe? (rules : Rules α) (total : α) : Option α :=
  let cycle := rules.longestTurn + 1
  if rules.lastTotal ≤ total then none
  else
    let rounds := Number.ceil ((rules.lastTotal - total) / cycle) - 1
    some (rules.lastTotal - rounds * cycle)

def mostAllowed (rules : Rules α) (total : α) : α :=
  Number.least rules.longestTurn (rules.target - total)

/-- The largest count to take at random: one that speaks the target is left out unless it is the
only one. -/
def mostAtRandom (rules : Rules α) (total : α) : α :=
  let most := rules.mostAllowed total
  if total + most == rules.target ∧ 1 < most then most - 1 else most

end RuleAdvisor.Counting.Rules
