import RuleAdvisor.Setting
import RuleAdvisor.Failure

/-!
The counting game: two players in turn speak the next numbers, at least one and at most
`longestTurn`, and whoever speaks the target loses.
-/

namespace RuleAdvisor.Counting

structure Rules (α : Type) where
  target : α
  longestTurn : α

inductive Refusal (α : Type) where
  | rules (issues : List (Issue α))
  /-- The total cannot be played from; `last` is the greatest that can. -/
  | total (last total : α)
  | random (value : α)
  | roundOver
  | notComputersTurn
  | count (longestTurn count : α)
  | pastTarget (count target total : α)
  | notWhole (longestTurn : α)
  | typedCount (longestTurn : α)

namespace Refusal

variable {α : Type} [Number α] [NumberText α]
open NumberText

def report : Refusal α → FailureReport
  | rules issues => .ofIssues .gameRules (issues.map Issue.describe)
  | total last played => .ofMessage .invalidState
      s!"Running total must be an integer from 0 to {plain last}, got {plain played}"
  | random value => .ofMessage .randomSource
      s!"Random source must return a number in [0, 1), got {plain value}"
  | roundOver => .ofMessage .invalidMove "Round is already over"
  | notComputersTurn => .ofMessage .invalidMove "It is not the computer's turn"
  | count longestTurn asked => .ofMessage .invalidMove
      s!"Move must be an integer from 1 to {plain longestTurn}, got {plain asked}"
  | pastTarget asked target played => .ofMessage .invalidMove
      s!"Move of {plain asked} would pass {plain target} (total is {plain played})"
  | notWhole longestTurn => .ofMessage .invalidMove
      s!"Enter a whole number from 1 to {plain longestTurn}"
  | typedCount longestTurn => .ofMessage .invalidMove
      s!"Only 1 to {plain longestTurn} numbers may be spoken"

end Refusal

namespace Rules

variable {α : Type} [Number α]

/-- Each setting is checked by itself; the two are compared only if both pass. -/
def issues (rules : Rules α) : List (Issue α) :=
  let each := Setting.checkIntegerRange "target" ⟨2, 1000, none, none⟩ rules.target
    ++ Setting.checkIntegerRange "maxSay" ⟨1, 100, none, none⟩ rules.longestTurn
  if isUsable each ∧ rules.target ≤ rules.longestTurn then
    each ++ [.error "maxSay" (.turnReachesTarget rules.longestTurn rules.target)]
  else each

def check (rules : Rules α) : Except (Refusal α) Unit :=
  if isUsable rules.issues then .ok () else .error (.rules (errorsOf rules.issues))

end Rules
end RuleAdvisor.Counting
