import RuleAdvisor.Fuzzy.RuleBase
import RuleAdvisor.Text.Character

/-!
Well-formed rule bases: what a rule base has to be so that every inference with it succeeds. The
parts are stated one by one, without regard to the issues that validation finds.
-/

namespace RuleAdvisor.Fuzzy

variable {α : Type} [Number α]

def IsFilled (text : String) : Prop := ∃ c ∈ text.toList, Text.isBlank c = false

/-- The breakpoints are as many as the kind of shape needs, finite, in ascending order, and not
all the same. -/
structure Shape.WellFormed (shape : Shape α) : Prop where
  count : shape.points.length = shape.kind.breakpointCount
  finite : ∀ point ∈ shape.points, Number.isFinite point = true
  ascending : shape.points.Pairwise (· ≤ ·)
  wide : ∃ first last, shape.points.head? = some first ∧ shape.points.getLast? = some last
    ∧ first < last

structure Domain.WellFormed (domain : Domain α) : Prop where
  leastFinite : Number.isFinite domain.least = true
  greatestFinite : Number.isFinite domain.greatest = true
  ordered : domain.least < domain.greatest

structure Variable.WellFormed (v : Variable α) : Prop where
  name : IsFilled v.name
  domain : v.domain.WellFormed
  inhabited : v.categories.entries ≠ []
  shapes : ∀ entry ∈ v.categories.entries, entry.2.WellFormed

/-- The resolution divides the domain into at least one step. -/
structure Output.WellFormed (output : Output α) : Prop where
  variableWellFormed : output.toVariable.WellFormed
  resolutionFinite : Number.isFinite output.resolution = true
  resolutionPositive : 0 < output.resolution
  resolutionFits : output.resolution ≤ output.domain.greatest - output.domain.least

def Condition.WellFormed (condition : Condition) (base : RuleBase α) : Prop :=
  ∃ v ∈ base.inputs, v.name = condition.variableName ∧ condition.category ∈ v.categories.keys

structure Rule.WellFormed (rule : Rule) (base : RuleBase α) : Prop where
  id : IsFilled rule.id
  conditional : rule.conditions ≠ []
  conditions : ∀ condition ∈ rule.conditions, condition.WellFormed base
  conclusion : rule.conclusion ∈ base.output.categories.keys

structure RuleBase.WellFormed (base : RuleBase α) : Prop where
  version : IsFilled base.version
  hasInput : base.inputs ≠ []
  inputs : ∀ v ∈ base.inputs, v.WellFormed
  output : base.output.WellFormed
  /-- No two variables share a name, the output among them. -/
  names : (base.output.name :: base.inputs.map Variable.name).Nodup
  hasRule : base.rules ≠ []
  rules : ∀ rule ∈ base.rules, rule.WellFormed base
  ids : (base.rules.map Rule.id).Nodup

end RuleAdvisor.Fuzzy
