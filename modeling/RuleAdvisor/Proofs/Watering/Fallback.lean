import RuleAdvisor.Proofs.Watering.Estimates

/-!
What the fallback means. The flag is set exactly if no conclusion that fired is above 0 at a
position that is sampled. Where every strength but 0 belongs to a conclusion that is seen, this is
that no rule fired; a category that lies between the samples makes the two differ.
-/

namespace RuleAdvisor.Watering

open Fuzzy Exact

theorem fired_of_sees {base : RuleBase Exact} {inference : Inference Exact}
    (sees : inference.Sees base.output) :
    ∃ rule ∈ (decisionOf base inference).rules, rule.strength ≠ 0 := by
  obtain ⟨_, activation, given, _, _, strong, _⟩ := sees
  refine ⟨_, List.mem_map_of_mem given, fun none => ?_⟩
  exact not_lt_self 0 (none ▸ strong)

/-- One rule for one category, which lies between the two samples of its output. -/
def narrowBase : RuleBase Exact where
  version := "1"
  inputs := [
    { name := "soil_moisture", unit := "%", domain := ⟨0, 100⟩,
      categories := .mk [("dry", ⟨.triangular, [0, 0, 100]⟩)] (by simp) }]
  output :=
    { name := "watering_time", unit := " min", domain := ⟨0, 2⟩, resolution := 2,
      categories := .mk [("short", ⟨.triangular, [0.5, 1, 1.5]⟩)] (by simp) }
  rules := [⟨"R1", "Dry soil needs a short watering",
    [⟨"soil_moisture", "dry", false⟩], "short"⟩]

theorem narrowBase_loaded (text : NumberText Exact) :
    (load narrowBase none).1 = .ok ⟨narrowBase, none, true⟩ := by
  have accepted : loadErrors narrowBase = [] := List.isEmpty_iff.mp (by decide +kernel)
  rw [load_of_accepted accepted]

/-- The fallback is taken exactly if no conclusion that fired is seen, and then it is announced by
a warning. So the flag tells that all strengths are 0 exactly if each time one is not, a conclusion
that fired is seen. -/
theorem fallback_iff_unseen [NumberText Exact] {base : RuleBase Exact}
    {logger : Option Log.Logger} {estimator : Estimator Exact}
    (loaded : (load base logger).1 = .ok estimator) (readings : Readings Exact) :
    ∃ inference decision, base.infer readings.values = .ok inference
      ∧ decision = decisionOf base inference
      ∧ estimator.explain readings
        = (.ok decision, Log.deliver logger [decisionMessage base decision])
      ∧ base.output.Places inference.activations inference.curve.positions
      ∧ ((decision.fallback = true ↔ ∀ rule ∈ decision.rules, rule.strength = 0)
        ↔ ((∃ rule ∈ decision.rules, rule.strength ≠ 0) → inference.Sees base.output))
      ∧ (inference.Sees base.output → decision.fallback = false
        ∧ inference.curve.centroid? = some decision.duration
        ∧ (decisionMessage base decision).level = .debug)
      ∧ (¬ inference.Sees base.output → decision.fallback = true
        ∧ decision.duration = base.output.domain.least
        ∧ (decisionMessage base decision).level = .warning) := by
  obtain ⟨rfl, valid, known⟩ := (load_eq_ok_iff base logger estimator).mp loaded
  obtain ⟨inference, inferred, -, value, fallback, places, seen⟩ :=
    valid.exists_inference (readings.supplies known)
  have whenSeen (sees : inference.Sees base.output) : inference.fallback = false
      ∧ inference.curve.centroid? = some inference.value := by
    obtain ⟨x, found⟩ := Option.isSome_iff_exists.mp (seen.mpr sees)
    rw [fallback, value, found]
    exact ⟨rfl, rfl⟩
  have whenUnseen (unseen : ¬ inference.Sees base.output) : inference.fallback = true
      ∧ inference.value = base.output.domain.least := by
    have missing := Option.not_isSome_iff_eq_none.mp (mt seen.mp unseen)
    rw [fallback, value, missing]
    exact ⟨rfl, rfl⟩
  refine ⟨inference, _, inferred, rfl, Estimator.explain_eq inferred, places, ?_, ?_, ?_⟩
  -- A conclusion that is seen has fired, so only one direction can fail.
  · have flag : (decisionOf base inference).fallback = true ↔ ¬ inference.Sees base.output := by
      by_cases sees : inference.Sees base.output
      · simp [decisionOf, whenSeen sees, sees]
      · simp [decisionOf, whenUnseen sees, sees]
    have unfired : (∀ rule ∈ (decisionOf base inference).rules, rule.strength = 0)
        ↔ ¬ ∃ rule ∈ (decisionOf base inference).rules, rule.strength ≠ 0 := by
      push Not
      rfl
    rw [flag, unfired, not_iff_not]
    exact ⟨Iff.mpr, fun heard => ⟨fired_of_sees, heard⟩⟩
  · intro sees
    obtain ⟨unset, centroid⟩ := whenSeen sees
    refine ⟨unset, centroid, ?_⟩
    rw [decisionMessage_level]
    simp [decisionOf, unset]
  · intro unseen
    obtain ⟨set, least⟩ := whenUnseen unseen
    refine ⟨set, least, ?_⟩
    rw [decisionMessage_level]
    simp [decisionOf, set]

theorem fallback_iff_unseen_narrow :
    (@load Exact _ unwritten narrowBase none).1 = .ok ⟨narrowBase, none, true⟩
      ∧ ∃ inference decision,
        narrowBase.infer (Readings.values ⟨0, 20, 50⟩) = .ok inference
        ∧ decision = decisionOf narrowBase inference
        ∧ @Estimator.explain Exact _ unwritten ⟨narrowBase, none, true⟩ ⟨0, 20, 50⟩
          = (.ok decision,
              Log.deliver none [@decisionMessage Exact _ unwritten narrowBase decision])
        ∧ narrowBase.output.Places inference.activations inference.curve.positions
        ∧ ((decision.fallback = true ↔ ∀ rule ∈ decision.rules, rule.strength = 0)
          ↔ ((∃ rule ∈ decision.rules, rule.strength ≠ 0)
            → inference.Sees narrowBase.output))
        ∧ (inference.Sees narrowBase.output → decision.fallback = false
          ∧ inference.curve.centroid? = some decision.duration
          ∧ (@decisionMessage Exact _ unwritten narrowBase decision).level = .debug)
        ∧ (¬ inference.Sees narrowBase.output → decision.fallback = true
          ∧ decision.duration = narrowBase.output.domain.least
          ∧ (@decisionMessage Exact _ unwritten narrowBase decision).level = .warning) := by
  have loaded := narrowBase_loaded unwritten
  exact ⟨loaded, @fallback_iff_unseen unwritten _ _ _ loaded ⟨0, 20, 50⟩⟩

theorem narrowBase_fires : ∃ inputs,
    narrowBase.fuzzify (Readings.values ⟨0, 20, 50⟩) = .ok inputs
      ∧ activationsOf narrowBase.rules inputs.degrees = .ok [⟨"R1", "short", 1⟩] := by
  have evaluated : ((narrowBase.fuzzify (Readings.values ⟨0, 20, 50⟩)).bind fun inputs =>
      activationsOf narrowBase.rules inputs.degrees).toOption = some [⟨"R1", "short", 1⟩] := by
    decide +kernel
  cases read : narrowBase.fuzzify (Readings.values ⟨0, 20, 50⟩) with
  | error refusal =>
      rw [read] at evaluated
      cases evaluated
  | ok inputs =>
      rw [read] at evaluated
      refine ⟨inputs, rfl, ?_⟩
      cases fired : activationsOf narrowBase.rules inputs.degrees with
      | error refusal => simp [Except.bind, fired, Except.toOption] at evaluated
      | ok activations => simpa [Except.bind, fired, Except.toOption] using evaluated

theorem narrowBase_curve :
    narrowBase.output.curveOf [⟨"R1", "short", 1⟩] = .ok [⟨0, 0⟩, ⟨2, 0⟩] := by
  let activation : Activation Exact := ⟨"R1", "short", 1⟩
  let short : Clip Exact := ⟨1, ⟨.triangular, [0.5, 1, 1.5]⟩⟩
  have counted : narrowBase.output.domain.samples? narrowBase.output.resolution = some [0, 2] := by
    decide +kernel
  have ends : narrowBase.output.Ends := Option.isSome_iff_exists.mpr ⟨_, counted⟩
  have grid : narrowBase.output.domain.samples narrowBase.output.resolution = [0, 2] := by
    rw [Domain.samples, counted, Option.getD_some]
  have corners : [activation].mapM (narrowBase.output.corners
      (narrowBase.output.domain.samples narrowBase.output.resolution)) = .ok [[]] := by
    simp [Output.corners, activation]
  have clips : (firedOf [activation]).mapM narrowBase.output.clip = .ok [short] := by
    have fired : firedOf [activation] = [activation] := by decide +kernel
    rw [fired]
    rfl
  have merged : mergePositions [0, 2] [] = ([0, 2] : List Exact) := by
    rw [mergePositions, List.append_nil,
      sortPositions_of_ascending (by decide +kernel) (by decide +kernel)]
    decide +kernel
  have flat : [(0 : Exact), 2].map (fun x => (⟨x, Output.joinedDegree [short] x⟩ : Sample Exact))
      = [⟨0, 0⟩, ⟨2, 0⟩] := by decide +kernel
  rw [Output.curveOf_eq ends corners clips, grid, List.flatten_singleton, merged, flat]

/-- The rule fires with strength 1, and yet the decision is that none did. -/
theorem narrow_category_unseen :
    (@load Exact _ unwritten narrowBase none).1 = .ok ⟨narrowBase, none, true⟩
      ∧ ∃ decision,
        (@Estimator.explain Exact _ unwritten ⟨narrowBase, none, true⟩ ⟨0, 20, 50⟩).1
          = .ok decision
        ∧ decision.fallback = true
        ∧ decision.rules.map RuleStrength.strength = [1]
        ∧ (@decisionMessage Exact _ unwritten narrowBase decision).level = .warning := by
  obtain ⟨inputs, read, fired⟩ := narrowBase_fires
  have inferred := RuleBase.infer_eq read fired narrowBase_curve
  have unset : Curve.centroid? [⟨0, 0⟩, ⟨2, 0⟩] = (none : Option Exact) := by decide +kernel
  rw [unset] at inferred
  have explained := @Estimator.explain_eq Exact _ unwritten ⟨narrowBase, none, true⟩
    ⟨0, 20, 50⟩ _ inferred
  exact ⟨narrowBase_loaded _, _, congrArg Prod.fst explained, rfl, rfl, rfl⟩

end RuleAdvisor.Watering
