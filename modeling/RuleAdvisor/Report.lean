import RuleAdvisor.Counting.Round
import RuleAdvisor.Fuzzy.Inference

/-!
Decisions and rule bases as lines of text.
-/

namespace RuleAdvisor.Report

variable {α : Type} [Number α] [NumberText α]
open NumberText Fuzzy

def minutes (value : α) : String := fixed 1 value ++ " min"

def reading (value : α) (unit : String) : String := fixed 1 value ++ unit

def spoken (total count : α) : String := s!"Computer says: {Counting.spokenText total count}"

def runningTotal (total count : α) : String := s!"Running total: {plain (total + count)}"

def condition (condition : Condition) : String :=
  let negation := if condition.negated then "NOT " else ""
  s!"{condition.variableName} IS {negation}{condition.category}"

def rule (rule : Rule) (outputName : String) : String :=
  let conditions := " AND ".intercalate (rule.conditions.map condition)
  s!"{rule.id}: IF {conditions} THEN {outputName} IS {rule.conclusion}"

def shape (shape : Shape α) : String := s!"{shape.kind.name}({listedText shape.points})"

def degrees (degrees : Record α) : String :=
  ", ".intercalate (degrees.entries.map fun (name, degree) => s!"{name} {fixed 2 degree}")

def variableLines (v : Variable α) : List String :=
  let unit := Text.trim v.unit
  let unitText := if unit = "" then "" else s!" ({unit})"
  s!"{v.name} [{plain v.domain.least}, {plain v.domain.greatest}]{unitText}"
    :: v.categories.entries.map fun (name, entry) => s!"  {name}: {shape entry}"

def ruleBase (base : RuleBase α) : List String :=
  [s!"Watering rule base {base.version}", ""]
    ++ (base.inputs ++ [base.output.toVariable]).flatMap variableLines
    ++ "" :: base.rules.map fun entry => rule entry base.output.name

def duration (value : α) (fallback : Bool) : String :=
  let note := if fallback then " (no rule fired)" else ""
  s!"Watering time: {minutes value}{note}"

def inputs (base : RuleBase α) (values : Record α) : String :=
  ", ".intercalate (base.inputs.map fun v =>
    v.name ++ " " ++ reading ((values.get? v.name).getD Number.absent) v.unit)

end RuleAdvisor.Report
