import RuleAdvisor.Proofs.Fuzzy.Acceptance
import RuleAdvisor.Proofs.Fuzzy.Soundness
import RuleAdvisor.Shipped
import RuleAdvisor.Watering.Estimate

/-!
Estimates with a loaded rule base. Loading accepts the well-formed rule bases whose inputs are
supplied, and from then on every reading gets a decision: nothing that is looked up is missing, the
result of no division by zero is used, and the duration lies in the domain of the output, up to the
tolerance. A rule that asks for the category under the reserved key has a strength that is no
number.
-/

namespace RuleAdvisor.Watering

open Fuzzy Exact

theorem supplyIssues_eq_nil_iff {α : Type} (base : RuleBase α) :
    supplyIssues base = [] ↔ ∀ v ∈ base.inputs, v.name ∈ supplied := by
  rw [supplyIssues, List.filterMap_eq_nil_iff]
  simp only [Prod.forall, List.mk_mem_zipIdx_iff_getElem?, ite_eq_left_iff, reduceCtorEq,
    imp_false, not_not, List.contains_iff_mem]
  rw [forall_comm]
  exact forall_getElem?_iff base.inputs fun v => v.name ∈ supplied

theorem loadErrors_eq_nil_iff {α : Type} [Number α] [FiniteOrder α] (base : RuleBase α) :
    loadErrors base = [] ↔ base.WellFormed ∧ ∀ v ∈ base.inputs, v.name ∈ supplied := by
  rw [loadErrors, List.append_eq_nil_iff, ← List.isEmpty_iff, ← supplyIssues_eq_nil_iff,
    ← RuleBase.isUsable_issues_iff]
  apply and_congr_right
  intro usable
  rw [if_pos (show isUsable base.issues = true from usable)]

theorem Readings.supplies {α : Type} (readings : Readings α) {base : RuleBase α}
    (known : ∀ v ∈ base.inputs, v.name ∈ supplied) :
    ∀ v ∈ base.inputs, ∃ value, readings.values.get? v.name = some value := by
  intro v member
  rw [← Option.isSome_iff_exists, Record.isSome_get?_iff]
  exact known v member

theorem Estimator.explain_eq {α : Type} [Number α] [NumberText α] {estimator : Estimator α}
    {readings : Readings α} {inference : Inference α}
    (inferred : estimator.base.infer readings.values = .ok inference) :
    estimator.explain readings
      = (.ok (decisionOf estimator.base inference), Log.deliver estimator.logger
          [decisionMessage estimator.base (decisionOf estimator.base inference)]) := by
  simp only [Estimator.explain, decide, inferred, Except.map]

theorem load_of_accepted {α : Type} [Number α] [NumberText α] {base : RuleBase α}
    (accepted : loadErrors base = []) (logger : Option Log.Logger) :
    load base logger = (.ok ⟨base, logger, true⟩, Log.deliver logger (loadMessages base)) := by
  unfold load
  rw [accepted]

theorem load_of_refused {α : Type} [Number α] [NumberText α] {base : RuleBase α}
    (refused : loadErrors base ≠ []) (logger : Option Log.Logger) :
    load base logger = (.error (.ruleBase (loadErrors base)), []) := by
  unfold load
  split
  · next accepted => exact absurd accepted refused
  · rfl

theorem load_eq_ok_iff {α : Type} [Number α] [FiniteOrder α] [NumberText α] (base : RuleBase α)
    (logger : Option Log.Logger) (estimator : Estimator α) :
    (load base logger).1 = .ok estimator
      ↔ estimator = ⟨base, logger, true⟩
        ∧ base.WellFormed ∧ ∀ v ∈ base.inputs, v.name ∈ supplied := by
  rw [← loadErrors_eq_nil_iff]
  by_cases accepted : loadErrors base = []
  · rw [load_of_accepted accepted]
    simp [accepted, eq_comm]
  · rw [load_of_refused accepted]
    simp [accepted]

theorem decisionMessage_level {α : Type} [Number α] [NumberText α] (base : RuleBase α)
    (decision : Decision α) :
    (decisionMessage base decision).level
      = if decision.fallback then .warning else .debug := by
  unfold decisionMessage
  split <;> simp [*]

theorem decisionMessage_answering [text : NumberText Exact] (byZero : Exact → Exact)
    (base : RuleBase Exact) (decision : Decision Exact) :
    @decisionMessage Exact (answering byZero) text base decision
      = decisionMessage base decision := by
  unfold decisionMessage Report.inputs
  rfl

/-- With a loaded rule base every triple of readings gets a decision, and all that is computed on
the way and all that an account of it looks up is there and within its bounds. The strengths all are
exactly if no rule asks for the category under the reserved key. Whatever a division by zero is said
to give, its result is not used, and the decision is the same. -/
theorem explain_sound [text : NumberText Exact] {base : RuleBase Exact}
    {logger : Option Log.Logger} {estimator : Estimator Exact}
    (loaded : (load base logger).1 = .ok estimator) (readings : Readings Exact) :
    ∃ inference, base.infer readings.values = .ok inference
      ∧ (estimator.explain readings).1 = .ok (decisionOf base inference)
      ∧ inference.Sound base
      ∧ ((∀ rule ∈ (decisionOf base inference).rules, IsDegree rule.strength)
        ↔ ∀ rule ∈ base.rules, rule.Readable)
      ∧ ∀ byZero, @Estimator.explain Exact (answering byZero) text estimator readings
        = estimator.explain readings := by
  obtain ⟨rfl, valid, known⟩ := (load_eq_ok_iff base logger estimator).mp loaded
  have given := readings.supplies known
  obtain ⟨inference, inferred, sound, _⟩ := valid.exists_inference given
  refine ⟨inference, inferred, ?_, sound, ?_, ?_⟩
  · rw [Estimator.explain_eq inferred]
  · rw [← sound.forall_isDegree_iff, decisionOf]
    exact List.forall_mem_map
  · intro byZero
    have otherInferred := (valid.infer_answering given byZero).trans inferred
    have other := @Estimator.explain_eq Exact (answering byZero) text ⟨base, logger, true⟩
      readings inference otherInferred
    rw [other, Estimator.explain_eq inferred, decisionMessage_answering]

/-- Numbers that leave no text. -/
@[reducible] def unwritten : NumberText Exact := ⟨fun _ => "", fun _ _ => ""⟩

theorem wateringBase_accepted : (Shipped.wateringBase : RuleBase Exact).WellFormed
    ∧ ∀ v ∈ (Shipped.wateringBase : RuleBase Exact).inputs, v.name ∈ supplied := by
  have accepted : loadErrors (Shipped.wateringBase : RuleBase Exact) = [] :=
    List.isEmpty_iff.mp (by decide +kernel)
  exact (loadErrors_eq_nil_iff _).mp accepted

theorem wateringBase_loaded (text : NumberText Exact) :
    (load (Shipped.wateringBase : RuleBase Exact) none).1
      = .ok ⟨Shipped.wateringBase, none, true⟩ :=
  (load_eq_ok_iff _ _ _).mpr ⟨rfl, wateringBase_accepted⟩

/-- The shipped rule base, asked with one broken sensor and one that overshoots. -/
theorem explain_sound_shipped :
    (@load Exact _ unwritten Shipped.wateringBase none).1
        = .ok ⟨Shipped.wateringBase, none, true⟩
      ∧ ∃ inference, Shipped.wateringBase.infer (Readings.values ⟨nan, posInf, 50⟩)
          = .ok inference
        ∧ (@Estimator.explain Exact _ unwritten ⟨Shipped.wateringBase, none, true⟩
            ⟨nan, posInf, 50⟩).1 = .ok (decisionOf Shipped.wateringBase inference)
        ∧ inference.Sound Shipped.wateringBase
        ∧ ((∀ rule ∈ (decisionOf Shipped.wateringBase inference).rules, IsDegree rule.strength)
          ↔ ∀ rule ∈ (Shipped.wateringBase : RuleBase Exact).rules, rule.Readable)
        ∧ ∀ byZero, @Estimator.explain Exact (answering byZero) unwritten
            ⟨Shipped.wateringBase, none, true⟩ ⟨nan, posInf, 50⟩
          = @Estimator.explain Exact _ unwritten ⟨Shipped.wateringBase, none, true⟩
            ⟨nan, posInf, 50⟩ := by
  have loaded := wateringBase_loaded unwritten
  exact ⟨loaded, @explain_sound unwritten _ _ _ loaded ⟨nan, posInf, 50⟩⟩

/-- One rule for a category of the soil moisture, of which one stands under the reserved key. -/
def reservedBase (category : String) : RuleBase Exact where
  version := "1"
  inputs := [
    { name := "soil_moisture", unit := "%", domain := ⟨0, 100⟩,
      categories := .mk [("dry", ⟨.triangular, [0, 0, 100]⟩),
        (Record.reserved, ⟨.triangular, [0, 0, 100]⟩)] (by simp [Record.reserved]) }]
  output :=
    { name := "watering_time", unit := " min", domain := ⟨0, 2⟩, resolution := 1,
      categories := .mk [("short", ⟨.triangular, [0, 1, 2]⟩)] (by simp) }
  rules := [⟨"R1", "Dry soil needs a short watering",
    [⟨"soil_moisture", category, false⟩], "short"⟩]

theorem reservedBase_accepted {category : String} (listed : category ∈ ["dry", Record.reserved]) :
    (reservedBase category).WellFormed
      ∧ ∀ v ∈ (reservedBase category).inputs, v.name ∈ supplied := by
  rw [← loadErrors_eq_nil_iff, ← List.isEmpty_iff]
  simp only [List.mem_cons, List.not_mem_nil, or_false] at listed
  rcases listed with rfl | rfl <;> decide +kernel

/-- The rule that asks for the category under the reserved key has no strength. -/
theorem reserved_category_unread :
    (@load Exact _ unwritten (reservedBase Record.reserved) none).1
        = .ok ⟨reservedBase Record.reserved, none, true⟩
      ∧ ∃ decision,
        (@Estimator.explain Exact _ unwritten ⟨reservedBase Record.reserved, none, true⟩
            ⟨0, 20, 50⟩).1 = .ok decision
        ∧ decision.rules.map RuleStrength.strength = [nan]
        ∧ ¬ ∀ rule ∈ decision.rules, IsDegree rule.strength := by
  obtain ⟨valid, known⟩ := @reservedBase_accepted Record.reserved (by simp)
  have loaded := (@load_eq_ok_iff Exact _ _ unwritten _ none _).mpr ⟨rfl, valid, known⟩
  obtain ⟨inference, inferred, sound, _⟩ :=
    valid.exists_inference (Readings.supplies ⟨0, 20, 50⟩ known)
  have explained := @Estimator.explain_eq Exact _ unwritten
    ⟨reservedBase Record.reserved, none, true⟩ ⟨0, 20, 50⟩ _ inferred
  have unreadable : ¬ (⟨"R1", "Dry soil needs a short watering",
      [⟨"soil_moisture", Record.reserved, false⟩], "short"⟩ : Rule).Readable := by
    simp [Rule.Readable]
  -- Its only rule asks for the category that is lost.
  have lost : (decisionOf (reservedBase Record.reserved) inference).rules.map
      RuleStrength.strength = [nan] := by
    have strengths := sound.strengths
    rw [decisionOf, List.map_map]
    cases activations : inference.activations with
    | nil => simp [activations, reservedBase] at strengths
    | cons activation rest =>
        simp only [activations, reservedBase, List.forall₂_cons] at strengths
        obtain ⟨⟨-, noNumber⟩, others⟩ := strengths
        rw [List.forall₂_nil_left_iff.mp others]
        exact congrArg ([·]) (noNumber unreadable)
  refine ⟨loaded, _, congrArg Prod.fst explained, lost, fun degrees => ?_⟩
  have each := List.forall_mem_map.mpr degrees
  rw [lost] at each
  exact (each nan (List.mem_singleton_self nan)).ne_nan rfl

end RuleAdvisor.Watering
