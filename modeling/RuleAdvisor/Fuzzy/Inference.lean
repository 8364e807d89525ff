import RuleAdvisor.Failure
import RuleAdvisor.Fuzzy.Curve
import RuleAdvisor.Issue

/-!
Inference with a rule base. A rule fires as strongly as the weakest of its conditions holds, each
fired conclusion is cut off at its strength, the conclusions are joined by their greatest degree,
and the centroid of the joined curve is the value decided on. No answer is given by rule bases with
errors, for names that lead nowhere, and where there is no end to the samples.
-/

namespace RuleAdvisor.Fuzzy

inductive Refusal (α : Type) where
  | ruleBase (issues : List (Issue α))
  | missingReading (variableName : String)
  | unknownDegree (variableName category : String)
  | unknownConclusion (outputName category : String)
  /-- There is no end to the samples, and so none to the work on the curve. -/
  | endless

/-- Samples without an end are stopped by nothing but the length a list can have. -/
def Refusal.report {α : Type} [Number α] [NumberText α] : Refusal α → FailureReport
  | ruleBase issues => .ofIssues .ruleBase (issues.map Issue.describe)
  | missingReading name => .ofMessage .invalidState
      s!"Missing reading for input variable \"{name}\""
  | unknownDegree name category => .ofMessage .invalidState
      s!"No membership degree for {name} IS {category}"
  | unknownConclusion name category => .ofMessage .invalidState
      s!"No output category {name} IS {category}"
  | endless => .ofMessage .listLength "Invalid array length"

/-- The values read, within their domains, and their degrees, by the names of the variables. -/
structure Fuzzified (α : Type) where
  values : Record α
  degrees : Record (Record α)

structure Activation (α : Type) where
  ruleId : String
  conclusion : String
  strength : α
  deriving DecidableEq

structure Clip (α : Type) where
  strength : α
  shape : Shape α

structure Inference (α : Type) where
  value : α
  /-- Whether nothing fired, so that the value is the least of the output's domain. -/
  fallback : Bool
  inputs : Fuzzified α
  activations : List (Activation α)
  curve : Curve α

variable {α : Type} [Number α]

/-- The degree in a category. Under the reserved key something is read in any case, but no number
if none stands there. -/
def degreeIn? (degrees : Record α) (category : String) : Option α :=
  match degrees.get? category with
  | some degree => if Number.isGiven degree then some degree else none
  | none => if category = Record.reserved then some Number.absent else none

def Condition.degree (condition : Condition) (degrees : Record (Record α)) :
    Except (Refusal α) α :=
  match (degrees.get? condition.variableName).bind (degreeIn? · condition.category) with
  | none => .error (.unknownDegree condition.variableName condition.category)
  | some degree => .ok (if condition.negated then 1 - degree else degree)

def Rule.strength (rule : Rule) (degrees : Record (Record α)) : Except (Refusal α) α :=
  rule.conditions.foldlM
    (fun weakest condition => (condition.degree degrees).map (Number.least weakest)) 1

def Rule.activation (rule : Rule) (degrees : Record (Record α)) :
    Except (Refusal α) (Activation α) :=
  (rule.strength degrees).map fun strength => ⟨rule.id, rule.conclusion, strength⟩

def activationsOf (rules : List Rule) (degrees : Record (Record α)) :
    Except (Refusal α) (List (Activation α)) :=
  rules.mapM fun rule => rule.activation degrees

namespace Output

def shapeOf (output : Output α) (category : String) : Except (Refusal α) (Shape α) :=
  match output.categories.get? category with
  | some shape => .ok shape
  | none => .error (.unknownConclusion output.name category)

def grid (output : Output α) : Except (Refusal α) (List α) :=
  match output.domain.samples? output.resolution with
  | some grid => .ok grid
  | none => .error .endless

/-- The positions at which one conclusion's cut-off curve bends between the samples. -/
def corners (output : Output α) (grid : List α) (activation : Activation α) :
    Except (Refusal α) (List α) :=
  if 0 < activation.strength ∧ activation.strength < 1 then
    (output.shapeOf activation.conclusion).map fun shape =>
      shape.crossings activation.strength grid
  else .ok []

def clip (output : Output α) (activation : Activation α) : Except (Refusal α) (Clip α) :=
  (output.shapeOf activation.conclusion).map fun shape => ⟨activation.strength, shape⟩

def joinedDegree (clips : List (Clip α)) (x : α) : α :=
  clips.foldl
    (fun degree clip =>
      let clipped := Number.least clip.strength (clip.shape.degree x)
      if degree < clipped then clipped else degree) 0

/-- The joined curve of all conclusions, sampled on the grid and at every corner. Conclusions of
strength 0 add nothing and need not name a category. -/
def curveOf (output : Output α) (activations : List (Activation α)) :
    Except (Refusal α) (Curve α) := do
  let grid ← output.grid
  let corners ← activations.mapM (output.corners grid)
  let positions := mergePositions grid corners.flatten
  let fired := activations.filter fun activation => !decide (activation.strength ≤ 0)
  let clips ← fired.mapM output.clip
  pure (positions.map fun x => ⟨x, joinedDegree clips x⟩)

end Output

def Fuzzified.addReading (done : Fuzzified α) (v : Variable α) (values : Record α) :
    Except (Refusal α) (Fuzzified α) :=
  match values.get? v.name with
  | none => .error (.missingReading v.name)
  | some value =>
      if !Number.isGiven value then .error (.missingReading v.name)
      else
        let reading := v.read value
        .ok ⟨done.values.insert v.name reading.value, done.degrees.insert v.name reading.degrees⟩

namespace RuleBase

def fuzzify (base : RuleBase α) (values : Record α) : Except (Refusal α) (Fuzzified α) :=
  base.inputs.foldlM (fun done v => done.addReading v values) ⟨.empty, .empty⟩

def infer (base : RuleBase α) (values : Record α) : Except (Refusal α) (Inference α) := do
  let inputs ← base.fuzzify values
  let activations ← activationsOf base.rules inputs.degrees
  let curve ← base.output.curveOf activations
  let centroid? := curve.centroid?
  pure ⟨centroid?.getD base.output.domain.least, centroid?.isNone, inputs, activations, curve⟩

end RuleBase
end RuleAdvisor.Fuzzy
