import RuleAdvisor.Fuzzy.Shape
import RuleAdvisor.Record

/-!
Linguistic variables, each a numeric domain with named categories over it, and rule bases: input
variables, the output variable and the rules that lead from one to the other.
-/

namespace RuleAdvisor.Fuzzy

structure Domain (α : Type) where
  least : α
  greatest : α

structure Variable (α : Type) where
  name : String
  unit : String
  domain : Domain α
  categories : Record (Shape α)

/-- The variable a rule base decides on; its domain is sampled every `resolution` units. -/
structure Output (α : Type) extends Variable α where
  resolution : α

/-- A value within the domain and its degrees in the categories. -/
structure Reading (α : Type) where
  value : α
  degrees : Record α

namespace Variable

variable {α : Type} [Number α]

/-- The degrees at `x`, wherever it lies. That of a category under the reserved key is lost. -/
def degreesAt (v : Variable α) (x : α) : Record α :=
  (v.categories.map fun shape => shape.degree x).erase Record.reserved

/-- Brings a value into the domain before the degrees are taken, so a sensor that overshoots
counts as being at the end. -/
def read (v : Variable α) (value : α) : Reading α :=
  let clamped := Number.clamp value v.domain.least v.domain.greatest
  ⟨clamped, v.degreesAt clamped⟩

end Variable

structure Condition where
  variableName : String
  category : String
  negated : Bool
  deriving DecidableEq

/-- If every condition holds, the output is in the category `conclusion`. -/
structure Rule where
  id : String
  description : String
  conditions : List Condition
  conclusion : String
  deriving DecidableEq

structure RuleBase (α : Type) where
  version : String
  inputs : List (Variable α)
  output : Output α
  rules : List Rule

end RuleAdvisor.Fuzzy
