import RuleAdvisor.Proofs.Fuzzy.Rearranging
import RuleAdvisor.Proofs.Fuzzy.Soundness

/-!
Rule bases written down in another order. Every variable is read under its own name and every
condition looks up a name, so the order of the inputs makes no difference to any degree, that of the
conditions none to the weakest of them, and that of the rules none to the joined curve.
-/

namespace RuleAdvisor.Fuzzy

open Exact

/-- The same rule with its conditions in another order. -/
structure Rule.Reordered (rule other : Rule) : Prop where
  id : other.id = rule.id
  description : other.description = rule.description
  conditions : rule.conditions.Perm other.conditions
  conclusion : other.conclusion = rule.conclusion

/-- The same rule base with its inputs, its rules and the conditions within each of them in another
order. -/
structure RuleBase.Reordered (base other : RuleBase Exact) : Prop where
  version : other.version = base.version
  inputs : base.inputs.Perm other.inputs
  output : other.output = base.output
  rules : ∃ rules, List.Forall₂ Rule.Reordered base.rules rules ∧ rules.Perm other.rules

theorem Rule.Reordered.wellFormed {rule other : Rule} {base next : RuleBase Exact}
    (reordered : rule.Reordered other) (bases : base.Reordered next)
    (valid : rule.WellFormed base) : other.WellFormed next := by
  constructor
  case id =>
    rw [reordered.id]
    exact valid.id
  case conditional =>
    intro empty
    have order := reordered.conditions
    rw [empty] at order
    exact valid.conditional order.eq_nil
  case conditions =>
    intro condition listed
    obtain ⟨v, member, named, category⟩ :=
      valid.conditions condition (reordered.conditions.mem_iff.mpr listed)
    exact ⟨v, bases.inputs.mem_iff.mp member, named, category⟩
  case conclusion =>
    rw [reordered.conclusion, bases.output]
    exact valid.conclusion

theorem map_id_of_reordered {rules others : List Rule}
    (pairs : List.Forall₂ Rule.Reordered rules others) :
    others.map Rule.id = rules.map Rule.id := by
  induction pairs with
  | nil => rfl
  | cons first _ ih => rw [List.map_cons, List.map_cons, first.id, ih]

namespace RuleBase.Reordered

variable {base other : RuleBase Exact} (reordered : base.Reordered other)

include reordered

theorem exists_original {rule : Rule} (member : rule ∈ other.rules) :
    ∃ original ∈ base.rules, original.Reordered rule := by
  obtain ⟨rules, pairs, order⟩ := reordered.rules
  exact exists_of_mem_forall₂ pairs (order.mem_iff.mpr member)

theorem ids : (base.rules.map Rule.id).Perm (other.rules.map Rule.id) := by
  obtain ⟨rules, pairs, order⟩ := reordered.rules
  rw [← map_id_of_reordered pairs]
  exact order.map Rule.id

theorem wellFormed (valid : base.WellFormed) : other.WellFormed := by
  constructor
  case version =>
    rw [reordered.version]
    exact valid.version
  case hasInput =>
    intro empty
    have order := reordered.inputs
    rw [empty] at order
    exact valid.hasInput order.eq_nil
  case inputs =>
    intro v member
    exact valid.inputs v (reordered.inputs.mem_iff.mpr member)
  case output =>
    rw [reordered.output]
    exact valid.output
  case names =>
    rw [reordered.output]
    exact ((reordered.inputs.map Variable.name).cons _).nodup valid.names
  case hasRule =>
    intro empty
    have order := reordered.ids
    rw [empty] at order
    exact valid.hasRule (List.map_eq_nil_iff.mp order.eq_nil)
  case rules =>
    intro rule member
    obtain ⟨original, listed, same⟩ := reordered.exists_original member
    exact same.wellFormed reordered (valid.rules original listed)
  case ids => exact reordered.ids.nodup valid.ids

end RuleBase.Reordered

theorem Fuzzified.Reads.degrees_eq {inputs others : Fuzzified Exact} {v : Variable Exact}
    {values : Record Exact} (read : inputs.Reads v values) (otherRead : others.Reads v values) :
    inputs.degrees.get? v.name = others.degrees.get? v.name := by
  obtain ⟨value, given, _, stored⟩ := read
  obtain ⟨same, alsoGiven, _, alsoStored⟩ := otherRead
  rw [given, Option.some_inj] at alsoGiven
  rw [stored, alsoStored, alsoGiven]

instance : RightCommutative (Number.least : Exact → Exact → Exact) := ⟨least_right_comm⟩

theorem Rule.Reordered.activation {rule other : Rule} (reordered : rule.Reordered other)
    {degrees others : Record (Record Exact)}
    (same : ∀ condition ∈ rule.conditions, condition.degree degrees = condition.degree others)
    {activation : Activation Exact} (fires : rule.activation degrees = .ok activation) :
    other.activation others = .ok activation := by
  unfold Rule.activation at fires ⊢
  rw [Rule.strength_eq] at fires ⊢
  rw [mapM_congr same] at fires
  cases found : rule.conditions.mapM (Condition.degree · others) with
  | error refusal => simp [found, Except.map] at fires
  | ok strengths =>
      obtain ⟨results, otherFound, order⟩ := exists_mapM_perm reordered.conditions found
      rw [found] at fires
      rw [otherFound, reordered.id, reordered.conclusion]
      simp only [Except.map, Except.ok.injEq] at fires ⊢
      rw [← fires, order.foldl_eq]

theorem RuleBase.Reordered.exists_activations {base other : RuleBase Exact}
    (reordered : base.Reordered other) {degrees others : Record (Record Exact)}
    (same : ∀ rule ∈ base.rules, ∀ condition ∈ rule.conditions,
      condition.degree degrees = condition.degree others)
    {activations : List (Activation Exact)}
    (walked : activationsOf base.rules degrees = .ok activations) :
    ∃ next, activationsOf other.rules others = .ok next ∧ activations.Perm next := by
  obtain ⟨rules, pairs, order⟩ := reordered.rules
  have alike : List.Forall₂ (fun rule next : Rule => ∀ activation,
      rule.activation degrees = .ok activation → next.activation others = .ok activation)
      base.rules rules := by
    apply ((List.forall₂_and_left _ _).mpr ⟨same, pairs⟩).imp
    rintro rule next ⟨sameDegrees, reorderedRule⟩ activation fires
    exact reorderedRule.activation sameDegrees fires
  exact exists_mapM_perm order (mapM_eq_ok_of_forall₂ alike walked)

/-- Whatever is read, a rule base in another order comes to the same curve and the same value, by
the same activations. -/
theorem RuleBase.WellFormed.exists_reordered_inference {base other : RuleBase Exact}
    (valid : base.WellFormed) (reordered : base.Reordered other) {values : Record Exact}
    (supplied : ∀ v ∈ base.inputs, ∃ value, values.get? v.name = some value) :
    ∃ inference next, base.infer values = .ok inference ∧ other.infer values = .ok next
      ∧ next.curve = inference.curve ∧ next.value = inference.value
      ∧ next.fallback = inference.fallback
      ∧ inference.activations.Perm next.activations := by
  have otherValid := reordered.wellFormed valid
  have otherSupplied : ∀ v ∈ other.inputs, ∃ value, values.get? v.name = some value :=
    fun v member => supplied v (reordered.inputs.mem_iff.mpr member)
  obtain ⟨inputs, fuzzified, read, _⟩ := valid.exists_fuzzify supplied
  obtain ⟨others, otherFuzzified, otherRead, _⟩ := otherValid.exists_fuzzify otherSupplied
  have same : ∀ rule ∈ base.rules, ∀ condition ∈ rule.conditions,
      condition.degree inputs.degrees = condition.degree others.degrees := by
    intro rule member condition listed
    -- A condition looks up the name of an input, and under that both have read the same.
    obtain ⟨v, input, named, _⟩ := (valid.rules rule member).conditions condition listed
    apply Condition.degree_congr
    rw [← named]
    exact (read v input).degrees_eq (otherRead v (reordered.inputs.mem_iff.mp input))
  obtain ⟨activations, evaluated, _, sound⟩ := valid.exists_activations read
  obtain ⟨next, otherEvaluated, order⟩ := reordered.exists_activations same evaluated
  have named : ∀ activation ∈ firedOf activations,
      activation.conclusion ∈ base.output.categories.keys :=
    fun activation fired => (sound activation (mem_firedOf.mp fired).1).1
  obtain ⟨curve, joined⟩ := Output.exists_curveOf_iff.mpr ⟨valid.output.drawable.ends, named⟩
  have rearranged : Rearranged activations next := .permuted .same order
  have otherJoined : other.output.curveOf next = .ok curve := by
    rw [reordered.output]
    exact (valid.output.samplable.curveOf_congr rearranged.mem_firedOf_iff curve).mp joined
  refine ⟨_, _, infer_eq fuzzified evaluated joined,
    infer_eq otherFuzzified otherEvaluated otherJoined, rfl, ?_, rfl, order⟩
  rw [reordered.output]

end RuleAdvisor.Fuzzy
