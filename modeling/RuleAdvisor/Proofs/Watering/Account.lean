import RuleAdvisor.Proofs.Fuzzy.Dependence
import RuleAdvisor.Proofs.Fuzzy.Strength
import RuleAdvisor.Proofs.Watering.Estimates

/-!
What a decision says of itself. It lists the rules of the rule base, in order and in their own
words, each as strong as the weakest of its conditions by the degrees reported. It reports a value
and degrees for every input and for nothing else: the value lies in the domain of the input, and the
degrees are those of its categories at that value. The category under the reserved key is left out,
and a rule that asks for it has a strength that is no number.
-/

namespace RuleAdvisor.Watering

open Fuzzy Exact

theorem describeRule_of_mem {rules : List Rule} (distinct : (rules.map Rule.id).Nodup)
    {rule : Rule} (member : rule ∈ rules) : describeRule rules rule.id = rule.description := by
  have found := (find?_reverse_eq_some_iff distinct rule.id rule).mpr ⟨member, rfl⟩
  rw [describeRule, found]
  rfl

/-- The entry names the rule in the rule's own words. -/
structure RuleStrength.Names (entry : RuleStrength Exact) (rule : Rule) : Prop where
  id : entry.id = rule.id
  description : entry.description = rule.description
  conclusion : entry.conclusion = rule.conclusion

/-- The entry names the rule, with the strength of its weakest condition. -/
structure RuleStrength.AccountsFor (entry : RuleStrength Exact) (rule : Rule)
    (degrees : Record (Record Exact)) : Prop extends entry.Names rule where
  weakest : rule.IsWeakest degrees entry.strength

/-- What a decision reports of every rule base that is loaded. -/
structure Decision.Reports (decision : Decision Exact) (base : RuleBase Exact) : Prop where
  rules : List.Forall₂ (fun rule entry => entry.Names rule
      ∧ (rule.Readable → rule.IsWeakest decision.inputs.degrees entry.strength)
      ∧ (¬ rule.Readable → entry.strength = nan))
    base.rules decision.rules
  valueNames : decision.inputs.values.keys.Perm (base.inputs.map Variable.name)
  degreeNames : decision.inputs.degrees.keys.Perm (base.inputs.map Variable.name)
  inputs : ∀ v ∈ base.inputs, decision.inputs.Reports v v.recorded

/-- It accounts for all rules and for all categories of all inputs. -/
structure Decision.AccountsFor (decision : Decision Exact) (base : RuleBase Exact) : Prop where
  rules : List.Forall₂ (fun rule entry => entry.AccountsFor rule decision.inputs.degrees)
    base.rules decision.rules
  valueNames : decision.inputs.values.keys.Perm (base.inputs.map Variable.name)
  degreeNames : decision.inputs.degrees.keys.Perm (base.inputs.map Variable.name)
  inputs : ∀ v ∈ base.inputs, decision.inputs.Reports v v.categories.keys

theorem readable_of_unreserved {base : RuleBase Exact} (valid : base.WellFormed)
    (unreserved : ∀ v ∈ base.inputs, Record.reserved ∉ v.categories.keys) {rule : Rule}
    (member : rule ∈ base.rules) : rule.Readable := by
  intro condition listed reserved
  obtain ⟨v, input, -, category⟩ := (valid.rules rule member).conditions condition listed
  exact unreserved v input (reserved ▸ category)

/-- What is reported accounts for everything exactly if no category stands under the reserved
key. -/
theorem Decision.Reports.accountsFor_iff {decision : Decision Exact} {base : RuleBase Exact}
    (reports : decision.Reports base) (valid : base.WellFormed) :
    decision.AccountsFor base ↔ ∀ v ∈ base.inputs, Record.reserved ∉ v.categories.keys := by
  constructor
  · intro accounts v member
    exact (reports.inputs v member).all_iff.mp (accounts.inputs v member)
  · intro unreserved
    constructor
    case rules =>
      have readable (rule : Rule) (member : rule ∈ base.rules) : rule.Readable :=
        readable_of_unreserved valid unreserved member
      refine ((List.forall₂_and_left _ _).mpr ⟨readable, reports.rules⟩).imp ?_
      rintro rule entry ⟨askedFor, names, weakest, -⟩
      exact ⟨names, weakest askedFor⟩
    case valueNames => exact reports.valueNames
    case degreeNames => exact reports.degreeNames
    case inputs =>
      intro v member
      exact (reports.inputs v member).all_iff.mpr (unreserved v member)

theorem reported_of_activation {base : RuleBase Exact} (valid : base.WellFormed)
    {inputs : Fuzzified Exact} {values : Record Exact}
    (read : ∀ v ∈ base.inputs, inputs.Reads v values) {rule : Rule} (member : rule ∈ base.rules)
    {activation : Activation Exact} (fires : rule.activation inputs.degrees = .ok activation) :
    (⟨activation.ruleId, describeRule base.rules activation.ruleId, activation.conclusion,
        activation.strength⟩ : RuleStrength Exact).Names rule
      ∧ (rule.Readable → rule.IsWeakest inputs.degrees activation.strength)
      ∧ (¬ rule.Readable → activation.strength = nan) := by
  obtain ⟨strength, found, rfl⟩ := Rule.activation_eq_ok_iff.mp fires
  have meaningful := valid.rules rule member
  refine ⟨⟨rfl, describeRule_of_mem valid.ids member, rfl⟩, fun readable => ?_,
    (valid.strength_graded read member found).2⟩
  refine Rule.isWeakest_of_strength meaningful.conditional readable ?_ found
  intro condition listed degree own
  obtain ⟨other, alsoOwn, -, isDegree⟩ :=
    valid.condition_degree read (meaningful.conditions condition listed)
  rw [own, Except.ok.injEq] at alsoOwn
  rw [alsoOwn]
  exact isDegree (readable condition listed)

theorem exists_reports [NumberText Exact] {base : RuleBase Exact} {logger : Option Log.Logger}
    (valid : base.WellFormed) (known : ∀ v ∈ base.inputs, v.name ∈ supplied)
    (readings : Readings Exact) :
    ∃ decision, (Estimator.explain ⟨base, logger, true⟩ readings).1 = .ok decision
      ∧ decision.Reports base := by
  have supplies := readings.supplies known
  obtain ⟨inference, inferred, fuzzified, evaluated, _, _, _, read⟩ :=
    valid.exists_inference_reading supplies valid.output.drawable.ends
  have explained := @Estimator.explain_eq Exact _ _ ⟨base, logger, true⟩ _ _ inferred
  obtain ⟨valueNames, degreeNames⟩ := valid.keys_fuzzify supplies fuzzified
  refine ⟨_, congrArg Prod.fst explained, ?_, valueNames, degreeNames, ?_⟩
  · have pairs := (mapM_eq_ok_iff _ _ _).mp evaluated
    have listed := (List.forall₂_and_left _ _).mpr ⟨fun rule member => member, pairs⟩
    refine List.forall₂_map_right_iff.mpr (listed.imp ?_)
    rintro rule activation ⟨member, fires⟩
    exact reported_of_activation valid read member fires
  · intro v member
    exact (valid.inputs v member).reports_of_reads (read v member)

/-- With a loaded rule base every triple of readings gets a decision that reports all of its rules
and inputs. It accounts for all that was read exactly if no category stands under the reserved
key. -/
theorem explain_accounts [NumberText Exact] {base : RuleBase Exact} {logger : Option Log.Logger}
    {estimator : Estimator Exact} (loaded : (load base logger).1 = .ok estimator)
    (readings : Readings Exact) :
    ∃ decision, (estimator.explain readings).1 = .ok decision ∧ decision.Reports base
      ∧ (decision.AccountsFor base
        ↔ ∀ v ∈ base.inputs, Record.reserved ∉ v.categories.keys) := by
  obtain ⟨rfl, valid, known⟩ := (load_eq_ok_iff base logger estimator).mp loaded
  obtain ⟨decision, explained, reports⟩ := exists_reports valid known readings
  exact ⟨decision, explained, reports, reports.accountsFor_iff valid⟩

/-- A broken thermometer on a humid day. The last rule of the shipped rule base has a condition that
is negated. -/
theorem explain_accounts_humid :
    (@load Exact _ unwritten Shipped.wateringBase none).1
        = .ok ⟨Shipped.wateringBase, none, true⟩
      ∧ ∃ decision,
        (@Estimator.explain Exact _ unwritten ⟨Shipped.wateringBase, none, true⟩
            ⟨35, nan, 90⟩).1 = .ok decision
        ∧ decision.Reports Shipped.wateringBase
        ∧ (decision.AccountsFor Shipped.wateringBase
          ↔ ∀ v ∈ (Shipped.wateringBase : RuleBase Exact).inputs,
            Record.reserved ∉ v.categories.keys) := by
  have loaded := wateringBase_loaded unwritten
  exact ⟨loaded, @explain_accounts unwritten _ _ _ loaded ⟨35, nan, 90⟩⟩

/-- The category under the reserved key is an input's own, and the decision does not report it. -/
theorem reserved_category_unreported :
    (@load Exact _ unwritten (reservedBase "dry") none).1 = .ok ⟨reservedBase "dry", none, true⟩
      ∧ ∃ decision,
        (@Estimator.explain Exact _ unwritten ⟨reservedBase "dry", none, true⟩ ⟨0, 20, 50⟩).1
          = .ok decision
        ∧ (decision.inputs.degrees.get? "soil_moisture").map Record.keys = some ["dry"]
        ∧ ¬ decision.AccountsFor (reservedBase "dry") := by
  obtain ⟨valid, known⟩ := @reservedBase_accepted "dry" (by simp)
  have loaded := (@load_eq_ok_iff Exact _ _ unwritten _ none _).mpr ⟨rfl, valid, known⟩
  obtain ⟨decision, explained, reports⟩ :=
    @exists_reports unwritten _ none valid known ⟨0, 20, 50⟩
  refine ⟨loaded, decision, explained, ?_, ?_⟩
  · obtain ⟨_, degrees, _, stored, _, _, keys, _⟩ := reports.inputs _ List.mem_cons_self
    rw [stored, Option.map_some, keys]
    decide
  · rw [reports.accountsFor_iff valid]
    intro unreserved
    exact unreserved _ List.mem_cons_self (by decide)

end RuleAdvisor.Watering
