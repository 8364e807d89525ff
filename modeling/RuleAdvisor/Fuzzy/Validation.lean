import RuleAdvisor.Fuzzy.RuleBase
import RuleAdvisor.Setting

/-!
Validation of rule bases. All issues are collected in one pass: each element is checked whatever
is wrong with the others, and only checks that make no sense after an error are left out.
-/

namespace RuleAdvisor.Fuzzy

def Field.input (index : Nat) : String := s!"inputs[{index}]"

def Field.name (owner : String) : String := owner ++ ".name"

def Field.domain (owner : String) : String := owner ++ ".universe"

def Field.categories (owner : String) : String := owner ++ ".categories"

def Field.category (owner name : String) : String := owner ++ ".categories." ++ name

def Field.point (shape : String) (index : Nat) : String := s!"{shape}.points[{index}]"

def Field.rule (index : Nat) : String := s!"rules[{index}]"

def Field.condition (rule : String) (index : Nat) : String := s!"{rule}.when[{index}]"

variable {α : Type} [Number α]

def hasDescent : List α → Bool
  | first :: second :: rest => decide (second < first) || hasDescent (second :: rest)
  | _ => false

def Domain.pointIssues (domain : Domain α) (field : String) (points : List α) :
    List (Issue α) :=
  let first := points.headD Number.absent
  let last := points.getLastD Number.absent
  if hasDescent points then [.error field (.decreasing points)]
  else if first == last then [.error field (.zeroWidth points)]
  else if first < domain.least ∨ domain.greatest < last then
    [.warning field (.outsideDomain domain.least domain.greatest)]
  else []

/-- A wrong number of breakpoints ends the check, and so do breakpoints that are not finite. -/
def Shape.issues (shape : Shape α) (domain : Domain α) (field : String) : List (Issue α) :=
  if shape.points.length ≠ shape.kind.breakpointCount then
    [.error field (.breakpointCount shape.kind shape.points.length)]
  else
    let infinite := shape.points.zipIdx.flatMap fun (point, index) =>
      Setting.checkFinite (Field.point field index) (.number point)
    if infinite.isEmpty then domain.pointIssues field shape.points else infinite

namespace Variable

def isEmptyDomain (v : Variable α) : Bool :=
  Number.isFinite v.domain.least && Number.isFinite v.domain.greatest
    && decide (v.domain.greatest ≤ v.domain.least)

/-- The categories are not looked at if the domain is empty. -/
def issues (v : Variable α) (field : String) : List (Issue α) :=
  Setting.checkFilled (Field.name field) (.text v.name)
    ++ Setting.checkFinite (Field.domain field ++ ".min") (.number v.domain.least)
    ++ Setting.checkFinite (Field.domain field ++ ".max") (.number v.domain.greatest)
    ++ if v.isEmptyDomain then
        [.error (Field.domain field) (.emptyDomain v.domain.least v.domain.greatest)]
      else if v.categories.entries.isEmpty then
        [.error (Field.categories field) .noCategory]
      else
        v.categories.entries.flatMap fun (name, shape) =>
          shape.issues v.domain (Field.category field name)

end Variable

def Output.resolutionIssues (output : Output α) : List (Issue α) :=
  let span := output.domain.greatest - output.domain.least
  let resolution := output.resolution
  if ¬ 0 < span then []
  else if !Number.isFinite resolution ∨ resolution ≤ 0 ∨ span < resolution then
    [.error "output.resolution" (.resolutionOutOfRange span resolution)]
  else if Number.ofNat recommendedSamples < span / resolution then
    [.warning "output.resolution" (.resolutionTooFine resolution)]
  else []

namespace RuleBase

/-- The input a condition means: of inputs with one name, the last. -/
def input? (base : RuleBase α) (name : String) : Option (Variable α) :=
  base.inputs.reverse.find? fun v => v.name == name

def inputIssues (base : RuleBase α) (index : Nat) (v : Variable α) : List (Issue α) :=
  let field := Field.input index
  let taken := (base.inputs.take index).map Variable.name
  v.issues field
    ++ if v.name ∈ taken ∨ v.name = base.output.name then
        [.error (Field.name field) (.duplicateVariable v.name)]
      else []

def conditionIssues (base : RuleBase α) (field : String) (condition : Condition) :
    List (Issue α) :=
  match base.input? condition.variableName with
  | none => [.error field (.unknownInput condition.variableName)]
  | some v =>
      if v.categories.contains condition.category then []
      else [.error field (.unknownCategory condition.category condition.variableName)]

def ruleIssues (base : RuleBase α) (index : Nat) (rule : Rule) : List (Issue α) :=
  let field := Field.rule index
  let earlier := (base.rules.take index).map Rule.id
  Setting.checkFilled (field ++ ".id") (.text rule.id)
    ++ (if rule.id ∈ earlier then [.error (field ++ ".id") (.duplicateRule rule.id)] else [])
    ++ (if rule.conditions.isEmpty then [.error (field ++ ".when") .noCondition] else [])
    ++ (rule.conditions.zipIdx.flatMap fun (condition, place) =>
        base.conditionIssues (Field.condition field place) condition)
    ++ if base.output.categories.contains rule.conclusion then []
      else [.error (field ++ ".then") (.unknownConclusion rule.conclusion)]

def unusedCategoryIssues (base : RuleBase α) : List (Issue α) :=
  let concluded := base.rules.map Rule.conclusion
  (base.output.categories.keys.filter fun name => !concluded.contains name).map fun name =>
    .warning (Field.category "output" name) (.unusedCategory name)

def unusedInputIssues (base : RuleBase α) : List (Issue α) :=
  let read := base.rules.flatMap fun rule => rule.conditions.map Condition.variableName
  let names := (base.inputs.map Variable.name).eraseDups
  (names.filter fun name => !read.contains name).map fun name =>
    .warning "inputs" (.unusedInput name)

def issues (base : RuleBase α) : List (Issue α) :=
  Setting.checkFilled "version" (.text base.version)
    ++ (if base.inputs.isEmpty then [.error "inputs" .noInput] else [])
    ++ (base.inputs.zipIdx.flatMap fun (v, index) => base.inputIssues index v)
    ++ base.output.toVariable.issues "output"
    ++ base.output.resolutionIssues
    ++ (if base.rules.isEmpty then [.error "rules" .noRule] else [])
    ++ (base.rules.zipIdx.flatMap fun (rule, index) => base.ruleIssues index rule)
    ++ base.unusedCategoryIssues
    ++ base.unusedInputIssues

end RuleBase
end RuleAdvisor.Fuzzy
