import RuleAdvisor.Proofs.Fuzzy.Joining
import RuleAdvisor.Proofs.Fuzzy.Soundness

/-!
What an inference depends on. A value that is read counts only for what it is within the domain of
its variable, and only if some rule asks for that variable: values that agree so far lead to the
same activations, and with them to the same curve. Values that agree on every input are read alike.
-/

namespace RuleAdvisor.Fuzzy

variable {α : Type}

/-- Some rule has a condition on the variable of this name. -/
def RuleBase.Mentions (base : RuleBase α) (name : String) : Prop :=
  ∃ rule ∈ base.rules, ∃ condition ∈ rule.conditions, condition.variableName = name

variable [Number α]

/-- The value under the name of the variable, brought into its domain. -/
def Variable.within? (v : Variable α) (values : Record α) : Option α :=
  (values.get? v.name).map fun value => Number.clamp value v.domain.least v.domain.greatest

/-- The values are the same within the domains of all variables that some rule asks for. -/
def RuleBase.Agrees (base : RuleBase α) (values others : Record α) : Prop :=
  ∀ v ∈ base.inputs, base.Mentions v.name → v.within? values = v.within? others

section Degrees

variable {degrees others : Record (Record α)}

theorem Rule.activation_congr {rule : Rule} (same : ∀ condition ∈ rule.conditions,
      degrees.get? condition.variableName = others.get? condition.variableName) :
    rule.activation degrees = rule.activation others := by
  unfold Rule.activation Rule.strength
  congr 1
  apply foldlM_congr
  intro condition listed weakest
  rw [Condition.degree_congr (same condition listed)]

theorem RuleBase.activationsOf_congr {base : RuleBase α}
    (same : ∀ name, base.Mentions name → degrees.get? name = others.get? name) :
    activationsOf base.rules degrees = activationsOf base.rules others := by
  apply mapM_congr
  intro rule member
  apply Rule.activation_congr
  intro condition listed
  exact same condition.variableName ⟨rule, member, condition, listed, rfl⟩

end Degrees

section Readings

variable {v : Variable α} {values others : Record α}

theorem Fuzzified.Reads.within? {inputs : Fuzzified α} (read : inputs.Reads v values) :
    inputs.values.get? v.name = v.within? values
      ∧ inputs.degrees.get? v.name = (v.within? values).map v.degreesAt := by
  obtain ⟨value, given, underValue, underDegrees⟩ := read
  have clamped : v.within? values = some (v.read value).value := by
    rw [Variable.within?, given]
    rfl
  rw [clamped]
  exact ⟨underValue, underDegrees⟩

variable [Complete α]

theorem Fuzzified.addReading_congr (same : v.within? values = v.within? others)
    (done : Fuzzified α) : done.addReading v values = done.addReading v others := by
  unfold Variable.within? at same
  cases given : others.get? v.name with
  | none =>
      rw [given, Option.map_none, Option.map_eq_none_iff] at same
      simp only [Fuzzified.addReading, given, same]
  | some other =>
      rw [given, Option.map_some, Option.map_eq_some_iff] at same
      obtain ⟨value, alsoGiven, clamped⟩ := same
      rw [Fuzzified.addReading_eq given, Fuzzified.addReading_eq alsoGiven, Variable.read,
        Variable.read, clamped]

theorem RuleBase.infer_congr {base : RuleBase α}
    (same : ∀ v ∈ base.inputs, v.within? values = v.within? others) :
    base.infer values = base.infer others := by
  have read : base.fuzzify values = base.fuzzify others :=
    foldlM_congr (fun v member done => Fuzzified.addReading_congr (same v member) done) _
  rw [infer, infer, read]

end Readings

namespace RuleBase.WellFormed

variable [Complete α] {base : RuleBase α} (valid : base.WellFormed) {values others : Record α}
  (supplied : ∀ v ∈ base.inputs, ∃ value, values.get? v.name = some value)
  (otherSupplied : ∀ v ∈ base.inputs, ∃ value, others.get? v.name = some value)

include valid

omit [Complete α] in
theorem exists_input {name : String} (mentioned : base.Mentions name) :
    ∃ v ∈ base.inputs, v.name = name := by
  obtain ⟨rule, member, condition, listed, rfl⟩ := mentioned
  obtain ⟨v, input, named, _⟩ := (valid.rules rule member).conditions condition listed
  exact ⟨v, input, named⟩

include supplied

theorem exists_activations_reading : ∃ inputs activations, base.fuzzify values = .ok inputs
    ∧ activationsOf base.rules inputs.degrees = .ok activations
    ∧ (∀ activation ∈ activations, activation.conclusion ∈ base.output.categories.keys)
    ∧ ∀ v ∈ base.inputs, inputs.Reads v values := by
  obtain ⟨inputs, fuzzified, read, _⟩ := valid.exists_reading supplied
  have each : ∀ rule ∈ base.rules, ∀ condition ∈ rule.conditions,
      ∃ degree, condition.degree inputs.degrees = .ok degree ∧ (fun _ => True) degree := by
    intro rule member condition listed
    have meaningful := (valid.rules rule member).conditions condition listed
    obtain ⟨_, _, _, _, _, found⟩ := meaningful.exists_degree read
    exact ⟨_, found, trivial⟩
  obtain ⟨activations, evaluated, sound⟩ :=
    @RuleBase.WellFormed.exists_fired _ _ base valid _ (fun _ => True) trivial
      (fun _ _ => trivial) each
  exact ⟨inputs, activations, fuzzified, evaluated, fun activation given => (sound _ given).1, read⟩

theorem infer_of_endless (endless : ¬ base.output.Ends) : base.infer values = .error .endless := by
  obtain ⟨inputs, activations, fuzzified, evaluated, _⟩ := valid.exists_activations_reading supplied
  have unfinished := Output.curveOf_of_endless endless activations
  simp only [infer, fuzzified, evaluated, unfinished, bind, Except.bind]

variable (ends : base.output.Ends)

include ends

theorem exists_inference_reading : ∃ inference, base.infer values = .ok inference
    ∧ base.fuzzify values = .ok inference.inputs
    ∧ activationsOf base.rules inference.inputs.degrees = .ok inference.activations
    ∧ base.output.curveOf inference.activations = .ok inference.curve
    ∧ inference.value = inference.curve.centroid?.getD base.output.domain.least
    ∧ inference.fallback = inference.curve.centroid?.isNone
    ∧ ∀ v ∈ base.inputs, inference.inputs.Reads v values := by
  obtain ⟨inputs, activations, fuzzified, evaluated, named, read⟩ :=
    valid.exists_activations_reading supplied
  obtain ⟨curve, joined⟩ := Output.exists_curveOf ends fun activation given _ => named _ given
  exact ⟨_, infer_eq fuzzified evaluated joined, fuzzified, evaluated, joined, rfl, rfl, read⟩

include otherSupplied

/-- Values that agree where the rules ask for them fire the same rules with the same strengths. -/
theorem infer_agreeing (agree : base.Agrees values others) :
    ∃ inference next, base.infer values = .ok inference ∧ base.infer others = .ok next
      ∧ next.activations = inference.activations ∧ next.curve = inference.curve
      ∧ next.value = inference.value ∧ next.fallback = inference.fallback := by
  obtain ⟨inference, inferred, _, evaluated, joined, value, fallback, read⟩ :=
    valid.exists_inference_reading supplied ends
  obtain ⟨next, otherInferred, _, otherEvaluated, otherJoined, otherValue, otherFallback,
    otherRead⟩ := valid.exists_inference_reading otherSupplied ends
  have same : ∀ name, base.Mentions name →
      inference.inputs.degrees.get? name = next.inputs.degrees.get? name := by
    intro name mentioned
    obtain ⟨v, input, rfl⟩ := valid.exists_input mentioned
    rw [(read v input).within?.2, (otherRead v input).within?.2, agree v input mentioned]
  have activations : next.activations = inference.activations := by
    rw [← activationsOf_congr same, evaluated, Except.ok.injEq] at otherEvaluated
    exact otherEvaluated.symm
  have curve : next.curve = inference.curve := by
    rw [activations, joined, Except.ok.injEq] at otherJoined
    exact otherJoined.symm
  refine ⟨inference, next, inferred, otherInferred, activations, curve, ?_, ?_⟩
  · rw [otherValue, value, curve]
  · rw [otherFallback, fallback, curve]

end RuleBase.WellFormed
end RuleAdvisor.Fuzzy
