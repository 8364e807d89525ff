import RuleAdvisor.Fuzzy.Validation
import RuleAdvisor.Log.Logger
import RuleAdvisor.Report
import RuleAdvisor.Watering.Readings

/-!
Estimates of the watering time. A rule base is validated once, when it is loaded; every estimate
then gives a full account of itself and leaves one line in the log.
-/

namespace RuleAdvisor.Watering

open Fuzzy Log

structure RuleStrength (α : Type) where
  id : String
  description : String
  conclusion : String
  strength : α

structure Decision (α : Type) where
  version : String
  duration : α
  /-- Whether no rule fired. -/
  fallback : Bool
  inputs : Fuzzified α
  rules : List (RuleStrength α)

structure Estimator (α : Type) where
  base : RuleBase α
  logger : Option Logger
  validated : Bool

variable {α : Type} [Number α]

/-- The errors that keep a rule base from being loaded. Its supply is looked at only if it has no
errors of its own. -/
def loadErrors (base : RuleBase α) : List (Issue α) :=
  let issues := base.issues
  errorsOf issues ++ if isUsable issues then supplyIssues base else []

def describeRule (rules : List Rule) (id : String) : String :=
  ((rules.reverse.find? fun rule => rule.id == id).map Rule.description).getD ""

def decisionOf (base : RuleBase α) (inference : Inference α) : Decision α where
  version := base.version
  duration := inference.value
  fallback := inference.fallback
  inputs := inference.inputs
  rules := inference.activations.map fun activation =>
    ⟨activation.ruleId, describeRule base.rules activation.ruleId, activation.conclusion,
      activation.strength⟩

def decide (base : RuleBase α) (readings : Readings α) : Except (Refusal α) (Decision α) :=
  (base.infer readings.values).map (decisionOf base)

variable [NumberText α]

def loadMessages (base : RuleBase α) : List Message :=
  ((warningsOf base.issues).map fun issue =>
      ⟨.warning, "Watering rule base: " ++ issue.describe⟩)
    ++ [⟨.debug,
      s!"Loaded watering rule base {base.version} with {base.rules.length} rules"⟩]

def decisionMessage (base : RuleBase α) (decision : Decision α) : Message :=
  let inputs := Report.inputs base decision.inputs.values
  let time := Report.minutes decision.duration
  if decision.fallback then ⟨.warning, s!"No watering rule fired for {inputs}; using {time}"⟩
  else ⟨.debug, s!"Watering {time} for {inputs}"⟩

/-- Validates a rule base; one that is refused leaves nothing in the log. -/
def load (base : RuleBase α) (logger : Option Logger) :
    Except (Refusal α) (Estimator α) × List Outcome :=
  match loadErrors base with
  | [] => (.ok ⟨base, logger, true⟩, deliver logger (loadMessages base))
  | errors => (.error (.ruleBase errors), [])

def Estimator.explain (estimator : Estimator α) (readings : Readings α) :
    Except (Refusal α) (Decision α) × List Outcome :=
  match decide estimator.base readings with
  | .ok decision =>
      (.ok decision, deliver estimator.logger [decisionMessage estimator.base decision])
  | .error refusal => (.error refusal, [])

def Estimator.estimate (estimator : Estimator α) (readings : Readings α) :
    Except (Refusal α) α :=
  (estimator.explain readings).1.map Decision.duration

def explanation (base : RuleBase α) (decision : Decision α) : List String :=
  let inputLine (v : Variable α) : String :=
    let value := (decision.inputs.values.get? v.name).getD Number.absent
    let degrees := (decision.inputs.degrees.get? v.name).getD .empty
    s!"  {v.name} {Report.reading value v.unit}: {Report.degrees degrees}"
  let ruleLine (rule : RuleStrength α) : String :=
    s!"  {rule.id} {NumberText.fixed 2 rule.strength} -> "
      ++ s!"{rule.conclusion}  {rule.description}"
  "Inputs:" :: base.inputs.map inputLine ++ "Rules:" :: decision.rules.map ruleLine

end RuleAdvisor.Watering
