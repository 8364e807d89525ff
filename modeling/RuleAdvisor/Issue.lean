import RuleAdvisor.Value
import RuleAdvisor.Fuzzy.Shape

/-!
Issues of a configuration: where something is wrong, how grave it is, and what it is. Errors make
a configuration unusable, warnings do not. The wording of every fault is in one place.
-/

namespace RuleAdvisor

inductive Severity where
  | error
  | warning
  deriving DecidableEq

def Severity.name : Severity → String
  | error => "CRITICAL"
  | warning => "WARNING"

inductive Fault (α : Type) where
  | blankText
  | notFinite (value : Value α)
  | notInteger (value : α)
  | outOfRange (value least greatest : α)
  | notRecommended (value least greatest : α)
  | turnReachesTarget (longestTurn target : α)
  | breakpointCount (kind : Fuzzy.ShapeKind) (count : Nat)
  | decreasing (points : List α)
  | zeroWidth (points : List α)
  | outsideDomain (least greatest : α)
  | emptyDomain (least greatest : α)
  | noCategory
  | noInput
  | duplicateVariable (name : String)
  | resolutionOutOfRange (span resolution : α)
  | resolutionTooFine (resolution : α)
  | noRule
  | duplicateRule (id : String)
  | noCondition
  | unknownInput (name : String)
  | unknownCategory (category variableName : String)
  | unknownConclusion (category : String)
  | unusedCategory (category : String)
  | unusedInput (name : String)
  | unsuppliedInput (name : String) (supplied : List String)
  | stated (message : String)

structure Issue (α : Type) where
  severity : Severity
  field : String
  fault : Fault α

/-- Above this many samples of the output a finer resolution gains nothing. -/
def recommendedSamples : Nat := 10000

namespace Fault

variable {α : Type} [Number α] [NumberText α]
open NumberText

def message (field : String) : Fault α → String
  | blankText => s!"{field} must be a non-empty string"
  | notFinite value => s!"{field} must be a finite number (got {value.write})"
  | notInteger value => s!"{field} must be an integer (got {plain value})"
  | outOfRange value least greatest =>
      s!"{field} must be between {plain least} and {plain greatest} (got {plain value})"
  | notRecommended value least greatest =>
      s!"{field} is outside recommended range {plain least}-{plain greatest} "
        ++ s!"(got {plain value})"
  | turnReachesTarget longestTurn target =>
      s!"maxSay must be less than target (got {plain longestTurn} >= {plain target})"
  | breakpointCount kind count =>
      s!"{kind.name} shape needs {kind.breakpointCount} breakpoints (got {count})"
  | decreasing points => s!"breakpoints must be non-decreasing (got {listedText points})"
  | zeroWidth points => s!"shape has zero width (got {listedText points})"
  | outsideDomain least greatest =>
      s!"breakpoints extend outside universe {plain least}-{plain greatest}"
  | emptyDomain least greatest =>
      s!"universe min must be less than max (got {plain least}-{plain greatest})"
  | noCategory => "at least one category is required"
  | noInput => "at least one input variable is required"
  | duplicateVariable name => s!"duplicate variable name \"{name}\""
  | resolutionOutOfRange span resolution =>
      s!"output.resolution must be greater than 0 and at most {plain span} "
        ++ s!"(got {plain resolution})"
  | resolutionTooFine resolution =>
      s!"output.resolution gives more than {recommendedSamples} samples (got {plain resolution})"
  | noRule => "at least one rule is required"
  | duplicateRule id => s!"duplicate rule id \"{id}\""
  | noCondition => "rule needs at least one condition"
  | unknownInput name => s!"unknown input variable \"{name}\""
  | unknownCategory category variableName =>
      s!"unknown category \"{category}\" for variable \"{variableName}\""
  | unknownConclusion category => s!"unknown output category \"{category}\""
  | unusedCategory category => s!"no rule concludes \"{category}\""
  | unusedInput name => s!"no rule reads input variable \"{name}\""
  | unsuppliedInput name supplied =>
      s!"no reading supplies input variable \"{name}\" "
        ++ "(expected one of " ++ ", ".intercalate supplied ++ ")"
  | stated message => message

end Fault

namespace Issue

variable {α : Type}

def error (field : String) (fault : Fault α) : Issue α := ⟨.error, field, fault⟩

def warning (field : String) (fault : Fault α) : Issue α := ⟨.warning, field, fault⟩

def isError (issue : Issue α) : Bool := issue.severity == .error

variable [Number α] [NumberText α]

def message (issue : Issue α) : String := issue.fault.message issue.field

def describe (issue : Issue α) : String := issue.field ++ ": " ++ issue.message

end Issue

def errorsOf {α : Type} (issues : List (Issue α)) : List (Issue α) :=
  issues.filter Issue.isError

def warningsOf {α : Type} (issues : List (Issue α)) : List (Issue α) :=
  issues.filter fun issue => !issue.isError

def isUsable {α : Type} (issues : List (Issue α)) : Bool := (errorsOf issues).isEmpty

end RuleAdvisor
