import RuleAdvisor.Proofs.Fuzzy.Reordering
import RuleAdvisor.Proofs.Watering.Estimates

/-!
Estimates do not depend on the order in which a rule base is written down. With its inputs, its
rules and their conditions in any other order it is loaded just as well, and every reading gets the
same duration from the same curve, with the same strength for each rule.
-/

namespace RuleAdvisor.Watering

open Fuzzy Exact Shipped

theorem load_reordered [NumberText Exact] {base other : RuleBase Exact}
    {logger : Option Log.Logger} {estimator : Estimator Exact}
    (loaded : (load base logger).1 = .ok estimator) (reordered : base.Reordered other) :
    (load other logger).1 = .ok ⟨other, logger, true⟩ := by
  obtain ⟨_, valid, known⟩ := (load_eq_ok_iff base logger estimator).mp loaded
  rw [load_eq_ok_iff]
  refine ⟨rfl, reordered.wellFormed valid, ?_⟩
  intro v member
  exact known v (reordered.inputs.mem_iff.mpr member)

theorem strengths_perm {base other : RuleBase Exact} {inference next : Inference Exact}
    (order : inference.activations.Perm next.activations) :
    ((decisionOf base inference).rules.map fun rule => (rule.id, rule.strength)).Perm
      ((decisionOf other next).rules.map fun rule => (rule.id, rule.strength)) := by
  simp only [decisionOf, List.map_map]
  exact order.map _

/-- A rule base that is loaded can be written in another order: it is loaded again, and every triple
of readings is answered from the same curve, with the same duration, the same flag and the same
strength for each rule. Of any output whose samples end, the curve is the same for all activations
that differ only in their order, in how often one is repeated, and in activations of strength 0. -/
theorem decision_unordered [NumberText Exact] :
    (∀ (base other : RuleBase Exact) (logger : Option Log.Logger) (estimator : Estimator Exact),
      (load base logger).1 = .ok estimator → base.Reordered other →
      ∃ next, (load other logger).1 = .ok next ∧ ∀ readings : Readings Exact,
        ∃ inference otherInference decision otherDecision,
          base.infer readings.values = .ok inference
          ∧ other.infer readings.values = .ok otherInference
          ∧ (estimator.explain readings).1 = .ok decision
          ∧ (next.explain readings).1 = .ok otherDecision
          ∧ otherInference.curve = inference.curve
          ∧ otherDecision.duration = decision.duration
          ∧ otherDecision.fallback = decision.fallback
          ∧ (decision.rules.map fun rule => (rule.id, rule.strength)).Perm
            (otherDecision.rules.map fun rule => (rule.id, rule.strength)))
      ∧ ∀ output : Output Exact, output.Samplable →
        ∀ activations others : List (Activation Exact), Rearranged activations others →
          (∀ curve, output.curveOf activations = .ok curve ↔ output.curveOf others = .ok curve)
          ∧ (output.Ends → (∀ activation ∈ activations, ¬ activation.strength ≤ 0 →
              activation.conclusion ∈ output.categories.keys) →
            ∃ curve, output.curveOf activations = .ok curve) := by
  constructor
  · intro base other logger estimator loaded reordered
    refine ⟨_, load_reordered loaded reordered, ?_⟩
    intro readings
    obtain ⟨rfl, valid, known⟩ := (load_eq_ok_iff base logger estimator).mp loaded
    obtain ⟨inference, next, inferred, otherInferred, curve, value, fallback, order⟩ :=
      valid.exists_reordered_inference reordered (readings.supplies known)
    have explained := @Estimator.explain_eq Exact _ _ ⟨base, logger, true⟩ _ _ inferred
    have otherExplained := @Estimator.explain_eq Exact _ _ ⟨other, logger, true⟩ _ _ otherInferred
    exact ⟨inference, next, _, _, inferred, otherInferred, congrArg Prod.fst explained,
      congrArg Prod.fst otherExplained, curve, value, fallback, strengths_perm order⟩
  · intro output samplable activations others rearranged
    refine ⟨samplable.curveOf_congr rearranged.mem_firedOf_iff, ?_⟩
    intro ends named
    rw [Output.exists_curveOf_iff]
    refine ⟨ends, fun activation fired => ?_⟩
    obtain ⟨given, strong⟩ := mem_firedOf.mp fired
    exact named activation given strong

def backwards (rule : Rule) : Rule := { rule with conditions := rule.conditions.reverse }

def upsideDown : RuleBase Exact :=
  { wateringBase with
    inputs := [airHumidity, temperature, soilMoisture]
    rules := (wateringRules.map backwards).reverse }

theorem upsideDown_reordered : (wateringBase : RuleBase Exact).Reordered upsideDown := by
  constructor
  case version => rfl
  case inputs => exact (List.reverse_perm [soilMoisture, temperature, airHumidity]).symm
  case output => rfl
  case rules =>
    refine ⟨wateringRules.map backwards, List.forall₂_map_right_iff.mpr ?_,
      (List.reverse_perm _).symm⟩
    apply List.forall₂_same.mpr
    intro rule _
    exact ⟨rfl, rfl, (List.reverse_perm _).symm, rfl⟩

/-- Two conclusions, and the same two with one of them repeated and one of no strength put in. -/
theorem decision_unordered_upsideDown :
    (∃ next, (@load Exact _ unwritten upsideDown none).1 = .ok next
      ∧ ∃ decision otherDecision,
        (@Estimator.explain Exact _ unwritten ⟨wateringBase, none, true⟩ ⟨35, nan, 50⟩).1
          = .ok decision
        ∧ (@Estimator.explain Exact _ unwritten next ⟨35, nan, 50⟩).1 = .ok otherDecision
        ∧ otherDecision.duration = decision.duration)
      ∧ ∃ curve,
        (wateringTime : Output Exact).curveOf
            [⟨"R4", "short", 0.5⟩, ⟨"R7", "none", 0.5⟩] = .ok curve
        ∧ (wateringTime : Output Exact).curveOf
            [⟨"R9", "unheard", 0⟩, ⟨"R7", "none", 0.5⟩, ⟨"R7", "none", 0.5⟩,
              ⟨"R4", "short", 0.5⟩] = .ok curve := by
  have loaded := wateringBase_loaded unwritten
  obtain ⟨bases, outputs⟩ := @decision_unordered unwritten
  constructor
  · obtain ⟨next, loadedNext, same⟩ := bases _ upsideDown _ _ loaded upsideDown_reordered
    obtain ⟨_, _, decision, otherDecision, _, _, explained, otherExplained, _, duration, _⟩ :=
      same ⟨35, nan, 50⟩
    exact ⟨next, loadedNext, decision, otherDecision, explained, otherExplained, duration⟩
  · have swapped : Rearranged [⟨"R4", "short", 0.5⟩, ⟨"R7", "none", 0.5⟩]
        [⟨"R7", "none", 0.5⟩, ⟨"R4", "short", 0.5⟩] := .permuted .same (.swap _ _ _)
    have rearranged : Rearranged [⟨"R4", "short", 0.5⟩, ⟨"R7", "none", 0.5⟩]
        [⟨"R9", "unheard", 0⟩, ⟨"R7", "none", 0.5⟩, ⟨"R7", "none", 0.5⟩,
          ⟨"R4", "short", 0.5⟩] := .idle (.repeated swapped List.mem_cons_self) rfl
    obtain ⟨same, exists_curve⟩ :=
      outputs wateringTime wateringBase_accepted.1.output.samplable _ _ rearranged
    obtain ⟨curve, joined⟩ :=
      exists_curve wateringBase_accepted.1.output.drawable.ends (by decide +kernel)
    exact ⟨curve, joined, (same curve).mp joined⟩

end RuleAdvisor.Watering
