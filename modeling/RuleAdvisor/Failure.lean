/-!
Failures as they are reported: a kind, a message and, where a configuration is refused, its
issues.
-/

namespace RuleAdvisor

inductive FailureKind where
  | validation
  | invalidState
  | invalidMove
  | randomSource
  | gameRules
  | ruleBase
  /-- A list that grew longer than a list can be. -/
  | listLength
  deriving DecidableEq

def FailureKind.name : FailureKind → String
  | validation => "ValidationError"
  | invalidState => "InvalidStateError"
  | invalidMove => "InvalidMoveError"
  | randomSource => "RandomSourceError"
  | gameRules => "GameRulesConfigError"
  | ruleBase => "RuleBaseConfigError"
  | listLength => "RangeError"

def FailureKind.heading : FailureKind → String
  | gameRules => "Invalid game rules: "
  | ruleBase => "Invalid rule base: "
  | _ => ""

/-- Whether one kind is among those another takes in: itself, and under `validation` all that the
program itself tells apart. -/
def FailureKind.isA (kind wider : FailureKind) : Bool :=
  kind == wider || (wider == validation && kind != listLength)

structure FailureReport where
  kind : FailureKind
  message : String
  issues : Option (List String)
  deriving DecidableEq

namespace FailureReport

def ofMessage (kind : FailureKind) (message : String) : FailureReport := ⟨kind, message, none⟩

def ofIssues (kind : FailureKind) (issues : List String) : FailureReport :=
  ⟨kind, kind.heading ++ "; ".intercalate issues, some issues⟩

def text (report : FailureReport) : String :=
  if report.message = "" then report.kind.name else report.kind.name ++ ": " ++ report.message

end FailureReport
end RuleAdvisor
