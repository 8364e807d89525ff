import RuleAdvisor.Proofs.Fuzzy.Dependence
import RuleAdvisor.Proofs.Watering.Estimates

/-!
What an estimate depends on. Readings count only for their values within the domains of the
variables that rules ask for. A decision reports all it took from the readings: asked again with the
values it reports, it is the same.
-/

namespace RuleAdvisor.Watering

open Fuzzy Exact

variable {α : Type}

def Readings.reporting (values : Record α) (spare : Readings α) : Readings α where
  soilMoisture := (values.get? "soil_moisture").getD spare.soilMoisture
  temperature := (values.get? "temperature").getD spare.temperature
  airHumidity := (values.get? "air_humidity").getD spare.airHumidity

theorem Readings.get?_reporting {values : Record α} {name : String} {value : α}
    (known : name ∈ supplied) (reported : values.get? name = some value) (spare : Readings α) :
    (Readings.reporting values spare).values.get? name = some value := by
  simp only [supplied, suppliers, List.map_cons, List.map_nil, List.mem_cons, List.not_mem_nil,
    or_false] at known
  rcases known with rfl | rfl | rfl
  · exact congrArg some (congrArg (·.getD spare.soilMoisture) reported)
  · exact congrArg some (congrArg (·.getD spare.temperature) reported)
  · exact congrArg some (congrArg (·.getD spare.airHumidity) reported)

variable [Number α] [Complete α]

theorem within?_reporting {v : Variable α} (domain : v.domain.WellFormed)
    (known : v.name ∈ supplied) {values : Record α} {inputs : Fuzzified α}
    (read : inputs.Reads v values) (spare : Readings α) :
    v.within? (Readings.reporting inputs.values spare).values = v.within? values := by
  obtain ⟨leastFinite, greatestFinite, less⟩ := domain
  have ordered := Complete.le_of_lt leastFinite greatestFinite less
  obtain ⟨value, given, stored, _⟩ := read
  rw [Variable.within?, Readings.get?_reporting known stored spare, Variable.within?, given,
    Option.map_some, Option.map_some]
  exact congrArg some (FiniteOrder.clamp_clamp leastFinite greatestFinite ordered value)

theorem decide_of_endless {base : RuleBase α} (valid : base.WellFormed)
    (known : ∀ v ∈ base.inputs, v.name ∈ supplied) (endless : ¬ base.output.Ends)
    (readings : Readings α) : decide base readings = .error .endless := by
  rw [decide, valid.infer_of_endless (readings.supplies known) endless]
  rfl

variable [NumberText α]

/-- The readings get a decision that reports them within the domains of their variables. Readings
that agree so far with them, on all variables that some rule asks for, get the same strengths,
curve, duration and flag. Readings that give what is reported, and anything else where no input is
read, get the very same account. -/
def Estimator.RestsOnClamped (estimator : Estimator α) (readings : Readings α) : Prop :=
  ∃ inference decision, estimator.base.infer readings.values = .ok inference
    ∧ decision = decisionOf estimator.base inference
    ∧ (estimator.explain readings).1 = .ok decision
    ∧ (∀ v ∈ estimator.base.inputs,
      decision.inputs.values.get? v.name = v.within? readings.values)
    ∧ (∀ others : Readings α, estimator.base.Agrees readings.values others.values →
      ∃ next other, estimator.base.infer others.values = .ok next
        ∧ other = decisionOf estimator.base next
        ∧ (estimator.explain others).1 = .ok other
        ∧ other.rules = decision.rules
        ∧ next.curve = inference.curve
        ∧ other.duration = decision.duration
        ∧ other.fallback = decision.fallback)
    ∧ ∀ spare,
      estimator.base.infer (Readings.reporting decision.inputs.values spare).values = .ok inference
        ∧ estimator.explain (Readings.reporting decision.inputs.values spare)
          = estimator.explain readings

theorem restsOnClamped_of_ends {base : RuleBase α} (valid : base.WellFormed)
    (known : ∀ v ∈ base.inputs, v.name ∈ supplied) (ends : base.output.Ends)
    (logger : Option Log.Logger) (readings : Readings α) :
    Estimator.RestsOnClamped ⟨base, logger, true⟩ readings := by
  have supplies := readings.supplies known
  obtain ⟨inference, inferred, _, _, _, _, _, read⟩ := valid.exists_inference_reading supplies ends
  have explained := @Estimator.explain_eq α _ _ ⟨base, logger, true⟩ _ _ inferred
  refine ⟨inference, _, inferred, rfl, congrArg Prod.fst explained, ?_, ?_, ?_⟩
  · intro v member
    exact (read v member).within?.1
  · intro others agree
    obtain ⟨same, next, alsoInferred, otherInferred, activations, curve, value, fallback⟩ :=
      valid.infer_agreeing supplies (others.supplies known) ends agree
    rw [inferred, Except.ok.injEq] at alsoInferred
    subst alsoInferred
    have otherExplained := @Estimator.explain_eq α _ _ ⟨base, logger, true⟩ _ _ otherInferred
    refine ⟨next, _, otherInferred, rfl, congrArg Prod.fst otherExplained, ?_, curve, value,
      fallback⟩
    simp only [decisionOf, activations]
  · intro spare
    -- What was reported is within the domains already, so it is read as it stands.
    have again : base.infer (Readings.reporting inference.inputs.values spare).values
        = .ok inference := by
      rw [← inferred]
      apply RuleBase.infer_congr
      intro v member
      exact within?_reporting (valid.inputs v member).domain (known v member) (read v member) spare
    have explainedAgain := @Estimator.explain_eq α _ _ ⟨base, logger, true⟩ _ _ again
    exact ⟨again, explainedAgain.trans explained.symm⟩

theorem explain_of_endless {base : RuleBase α} (valid : base.WellFormed)
    (known : ∀ v ∈ base.inputs, v.name ∈ supplied) (endless : ¬ base.output.Ends)
    (logger : Option Log.Logger) (readings : Readings α) :
    Estimator.explain ⟨base, logger, true⟩ readings = (.error .endless, []) := by
  rw [Estimator.explain, decide_of_endless valid known endless]

/-- With a loaded rule base every decision rests on the readings within the domains of the variables
that rules ask for. In exact arithmetic there is one for every triple of readings; where values are
rounded there is one as long as there is an end to the samples. -/
theorem explain_rests_on_clamped_readings :
    (∀ [NumberText Exact] (base : RuleBase Exact) (logger : Option Log.Logger)
        (estimator : Estimator Exact), (load base logger).1 = .ok estimator →
      ∀ readings, estimator.RestsOnClamped readings)
      ∧ ∀ (α : Type) [Number α] [Complete α] [NumberText α] (base : RuleBase α)
        (logger : Option Log.Logger) (estimator : Estimator α),
        (load base logger).1 = .ok estimator →
      ∀ readings, (base.output.Ends → estimator.RestsOnClamped readings)
        ∧ (¬ base.output.Ends → estimator.explain readings = (.error .endless, [])) := by
  constructor
  · intro _ base logger estimator loaded readings
    obtain ⟨rfl, valid, known⟩ := (load_eq_ok_iff base logger estimator).mp loaded
    exact restsOnClamped_of_ends valid known valid.output.drawable.ends logger readings
  · intro _ _ _ _ base logger estimator loaded readings
    obtain ⟨rfl, valid, known⟩ := (load_eq_ok_iff base logger estimator).mp loaded
    exact ⟨fun ends => restsOnClamped_of_ends valid known ends logger readings,
      fun endless => explain_of_endless valid known endless logger readings⟩

def humidityIgnored : RuleBase Exact :=
  { Shipped.wateringBase with rules := Shipped.wateringRules.take 7 }

theorem humidityIgnored_loaded (text : NumberText Exact) :
    (load humidityIgnored none).1 = .ok ⟨humidityIgnored, none, true⟩ := by
  have accepted : loadErrors humidityIgnored = [] := List.isEmpty_iff.mp (by decide +kernel)
  rw [load_of_accepted accepted]

theorem humidityIgnored_mentions {name : String} (mentioned : humidityIgnored.Mentions name) :
    name ∈ ["soil_moisture", "temperature"] := by
  have named : ∀ rule ∈ humidityIgnored.rules, ∀ condition ∈ rule.conditions,
      condition.variableName ∈ ["soil_moisture", "temperature"] := by decide
  obtain ⟨rule, member, condition, listed, rfl⟩ := mentioned
  exact named rule member condition listed

/-- A broken thermometer and one far below its range count alike, and the humidity not at all. -/
theorem explain_rests_on_clamped_readings_humidityIgnored :
    (@load Exact _ unwritten humidityIgnored none).1 = .ok ⟨humidityIgnored, none, true⟩
      ∧ humidityIgnored.Agrees (Readings.values ⟨35, nan, 50⟩)
        (Readings.values ⟨35, negInf, posInf⟩)
      ∧ ∃ decision other,
        (@Estimator.explain Exact _ unwritten ⟨humidityIgnored, none, true⟩ ⟨35, nan, 50⟩).1
          = .ok decision
        ∧ (@Estimator.explain Exact _ unwritten ⟨humidityIgnored, none, true⟩
          ⟨35, negInf, posInf⟩).1 = .ok other
        ∧ other.rules = decision.rules ∧ other.duration = decision.duration
        ∧ @Estimator.explain Exact _ unwritten ⟨humidityIgnored, none, true⟩
            (.reporting decision.inputs.values ⟨7, 7, 7⟩)
          = @Estimator.explain Exact _ unwritten ⟨humidityIgnored, none, true⟩ ⟨35, nan, 50⟩ := by
  have agree : humidityIgnored.Agrees (Readings.values ⟨35, nan, 50⟩)
      (Readings.values ⟨35, negInf, posInf⟩) := by
    intro v member mentioned
    have named := humidityIgnored_mentions mentioned
    simp only [humidityIgnored, Shipped.wateringBase, List.mem_cons, List.not_mem_nil, or_false]
      at member
    rcases member with rfl | rfl | rfl
    · decide +kernel
    · decide +kernel
    · exact absurd named (by decide)
  have loaded := humidityIgnored_loaded unwritten
  obtain ⟨inExact, -⟩ := explain_rests_on_clamped_readings
  obtain ⟨_, decision, _, _, explained, _, agreeing, reporting⟩ :=
    @inExact unwritten _ _ _ loaded ⟨35, nan, 50⟩
  obtain ⟨_, other, _, _, otherExplained, rules, _, duration, _⟩ :=
    agreeing ⟨35, negInf, posInf⟩ agree
  exact ⟨loaded, agree, decision, other, explained, otherExplained, rules, duration,
    (reporting ⟨7, 7, 7⟩).2⟩

end RuleAdvisor.Watering
