import RuleAdvisor.Proofs.Fuzzy.Coverage
import RuleAdvisor.Proofs.Watering.Estimates

/-!
The shipped rule base leaves no gap. The categories of the soil moisture overlap, and so do those of
the temperature, there is a rule for each pair of them, and every conclusion lies above 0 around
some full minute. So each reading waters for more than no time and for less than an hour.
-/

namespace RuleAdvisor.Watering

open Fuzzy Exact Shipped

theorem trapezoidal_pos_iff {a b c d : Nat} (rises : a ≤ b) (level : b ≤ c) (falls : c ≤ d)
    (x : Rat) :
    0 < (trapezoidal (OfNat.ofNat a) (OfNat.ofNat b) (OfNat.ofNat c) (OfNat.ofNat d) :
        Shape Exact).degree (rat x)
      ↔ ((a : Rat) < x ∧ x < d) ∨ ((b : Rat) ≤ x ∧ x ≤ c) := by
  rw [literal_eq a, literal_eq b, literal_eq c, literal_eq d]
  exact trapezoid_pos_iff (Nat.cast_le.mpr rises) (Nat.cast_le.mpr level)
    (Nat.cast_le.mpr falls) x

theorem triangular_pos_iff {a b c : Nat} (rises : a ≤ b) (falls : b ≤ c) (x : Rat) :
    0 < (triangular (OfNat.ofNat a) (OfNat.ofNat b) (OfNat.ofNat c) :
        Shape Exact).degree (rat x)
      ↔ ((a : Rat) < x ∧ x < c) ∨ x = b := by
  rw [literal_eq a, literal_eq b, literal_eq c]
  exact triangle_pos_iff (Nat.cast_le.mpr rises) (Nat.cast_le.mpr falls) x

def Covered (v : Variable Exact) (x : Rat) : Prop :=
  ∃ category shape, v.categories.get? category = some shape ∧ 0 < shape.degree (rat x)

theorem soilMoisture_covered {x : Rat} (least : 0 ≤ x) (greatest : x ≤ 100) :
    Covered soilMoisture x := by
  by_cases dry : x < 40
  · refine ⟨"dry", trapezoidal 0 0 20 40, rfl, ?_⟩
    rw [trapezoidal_pos_iff (by decide) (by decide) (by decide)]
    grind
  · by_cases moist : x < 70
    · refine ⟨"moist", triangular 30 50 70, rfl, ?_⟩
      rw [triangular_pos_iff (by decide) (by decide)]
      grind
    · refine ⟨"wet", trapezoidal 60 80 100 100, rfl, ?_⟩
      rw [trapezoidal_pos_iff (by decide) (by decide) (by decide)]
      grind

theorem temperature_covered {x : Rat} (least : 0 ≤ x) (greatest : x ≤ 45) :
    Covered temperature x := by
  by_cases cold : x < 18
  · refine ⟨"cold", trapezoidal 0 0 10 18, rfl, ?_⟩
    rw [trapezoidal_pos_iff (by decide) (by decide) (by decide)]
    grind
  · by_cases warm : x < 30
    · refine ⟨"warm", triangular 15 23 30, rfl, ?_⟩
      rw [triangular_pos_iff (by decide) (by decide)]
      grind
    · refine ⟨"hot", trapezoidal 27 35 45 45, rfl, ?_⟩
      rw [trapezoidal_pos_iff (by decide) (by decide) (by decide)]
      grind

theorem exists_rule_for : ∀ soil ∈ (soilMoisture : Variable Exact).categories.keys,
    ∀ warmth ∈ (temperature : Variable Exact).categories.keys,
    ∃ rule ∈ wateringRules, ∀ condition ∈ rule.conditions,
      condition = soilIs soil ∨ condition = temperatureIs warmth := by
  decide

theorem mem_keys_of_get? {record : Record (Shape Exact)} {category : String}
    {shape : Shape Exact} (named : record.get? category = some shape) :
    category ∈ record.keys := by
  rw [← Record.isSome_get?_iff, named]
  rfl

theorem wateringBase_fires (inputs : Fuzzified Exact) (values : Record Exact)
    (read : ∀ v ∈ (wateringBase : RuleBase Exact).inputs, inputs.Reads v values) :
    ∃ rule ∈ wateringRules, ∀ condition ∈ rule.conditions, condition.Holds inputs.degrees := by
  have soilEnds : (soilMoisture : Variable Exact).domain = ⟨rat 0, rat 100⟩ := by
    simp [soilMoisture, literal_eq]
  have warmthEnds : (temperature : Variable Exact).domain = ⟨rat 0, rat 45⟩ := by
    simp [temperature, literal_eq]
  have soilRead := read soilMoisture (by simp [wateringBase])
  have warmthRead := read temperature (by simp [wateringBase])
  obtain ⟨x, leastX, greatestX, atX⟩ := soilRead.exists_degreesAt soilEnds (by norm_num)
  obtain ⟨y, leastY, greatestY, atY⟩ := warmthRead.exists_degreesAt warmthEnds (by norm_num)
  obtain ⟨soil, soilShape, soilNamed, soilAbove⟩ := soilMoisture_covered leastX greatestX
  obtain ⟨warmth, warmthShape, warmthNamed, warmthAbove⟩ := temperature_covered leastY greatestY
  -- The rule for the two categories asks for nothing else, in particular not for the humidity.
  obtain ⟨rule, member, only⟩ :=
    exists_rule_for soil (mem_keys_of_get? soilNamed) warmth (mem_keys_of_get? warmthNamed)
  have soilKept : ∀ category ∈ (soilMoisture : Variable Exact).categories.keys,
      category ≠ Record.reserved := by decide
  have warmthKept : ∀ category ∈ (temperature : Variable Exact).categories.keys,
      category ≠ Record.reserved := by decide
  refine ⟨rule, member, ?_⟩
  intro condition listed
  rcases only condition listed with rfl | rfl
  · exact Condition.holds_of_shape rfl (soilKept soil (mem_keys_of_get? soilNamed)) atX soilNamed
      soilAbove
  · exact Condition.holds_of_shape rfl (warmthKept warmth (mem_keys_of_get? warmthNamed)) atY
      warmthNamed warmthAbove

theorem minutes_eq : stepCount 0 60 1 = 60 := by
  rw [stepCount, Int.floor_eq_iff]
  norm_num [nearness]

theorem wateringTime_ends : (wateringTime : Output Exact).domain = ⟨rat 0, rat 60⟩
    ∧ (wateringTime : Output Exact).resolution = rat 1 := by
  simp [wateringTime, literal_eq]

theorem minute_sampled {minute : Nat} (fits : minute ≤ 60) :
    rat minute ∈ (wateringTime : Output Exact).domain.samples
      (wateringTime : Output Exact).resolution := by
  rw [wateringTime_ends.1, wateringTime_ends.2]
  have sampled : rat (gridPoint 0 1 minute) ∈ (Domain.mk (rat 0) (rat 60)).samples (rat 1) :=
    gridPoint_mem_samples (by norm_num) (by norm_num) (by rw [minutes_eq]; omega)
  simpa [gridPoint] using sampled

theorem minutes_within : ∀ x ∈ (wateringTime : Output Exact).domain.samples
    (wateringTime : Output Exact).resolution, Within 0 60 x := by
  rw [wateringTime_ends.1, wateringTime_ends.2]
  apply samples_within_of_reach (by norm_num) (by norm_num)
  · rw [minutes_eq]
    norm_num
  · exact le_refl 60

theorem wateringTime_exposes {category : String} {shape : Shape Exact} (minute : Nat)
    (named : (wateringTime : Output Exact).categories.get? category = some shape)
    (fits : minute ≤ 60)
    (above : ∀ y : Rat, y ≤ minute → (minute : Rat) - y < 1 → 0 < shape.degree (rat y)) :
    (wateringTime : Output Exact).Exposes category := by
  refine ⟨shape, minute, named, minute_sampled fits, ?_⟩
  intro y below close
  have minuteOff : nearness < 1 := by norm_num [nearness]
  exact above y below (close.trans_lt minuteOff)

theorem wateringTime_exposes_triangular {category : String} {a b c : Nat} (minute : Nat)
    (named : (wateringTime : Output Exact).categories.get? category
      = some (triangular (OfNat.ofNat a) (OfNat.ofNat b) (OfNat.ofNat c)))
    (rises : a ≤ b) (falls : b ≤ c) (after : a < minute) (before : minute < c)
    (fits : minute ≤ 60) : (wateringTime : Output Exact).Exposes category := by
  apply wateringTime_exposes minute named fits
  intro y below close
  rw [triangular_pos_iff rises falls]
  have least : (a : Rat) + 1 ≤ minute := by exact_mod_cast after
  have greatest : (minute : Rat) < c := by exact_mod_cast before
  exact .inl ⟨by linarith, by linarith⟩

theorem wateringTime_exposes_long : (wateringTime : Output Exact).Exposes "long" := by
  have named : (wateringTime : Output Exact).categories.get? "long"
      = some (trapezoidal 35 45 60 60) := rfl
  apply wateringTime_exposes 50 named (by decide)
  intro y below close
  rw [trapezoidal_pos_iff (by decide) (by decide) (by decide)]
  push_cast at below close ⊢
  exact .inl ⟨by linarith, by linarith⟩

theorem wateringBase_exposes :
    ∀ rule ∈ wateringRules, (wateringTime : Output Exact).Exposes rule.conclusion := by
  have none : (wateringTime : Output Exact).Exposes "none" :=
    wateringTime_exposes_triangular 5 (a := 0) (b := 0) (c := 10) rfl
      (by decide) (by decide) (by decide) (by decide) (by decide)
  have short : (wateringTime : Output Exact).Exposes "short" :=
    wateringTime_exposes_triangular 15 (a := 5) (b := 15) (c := 25) rfl
      (by decide) (by decide) (by decide) (by decide) (by decide)
  have medium : (wateringTime : Output Exact).Exposes "medium" :=
    wateringTime_exposes_triangular 30 (a := 20) (b := 30) (c := 40) rfl
      (by decide) (by decide) (by decide) (by decide) (by decide)
  have long := wateringTime_exposes_long
  intro rule member
  simp only [wateringRules, List.mem_cons, List.not_mem_nil, or_false] at member
  rcases member with rfl | rfl | rfl | rfl | rfl | rfl | rfl | rfl | rfl <;> assumption

theorem wateringBase_covering : (wateringBase : RuleBase Exact).Covering :=
  ⟨wateringBase_fires, wateringBase_exposes⟩

/-- The shipped rule base is loaded, and then every triple of readings, whatever its values are,
fires some rule and is answered with a duration of more than 0 and less than 60 minutes. -/
theorem wateringBase_covers_every_reading [NumberText Exact] (logger : Option Log.Logger) :
    ∃ estimator, (load (wateringBase : RuleBase Exact) logger).1 = .ok estimator
      ∧ ∀ readings : Readings Exact, ∃ decision,
        (estimator.explain readings).1 = .ok decision
          ∧ (∃ rule ∈ decision.rules, 0 < rule.strength)
          ∧ decision.fallback = false
          ∧ 0 < decision.duration ∧ decision.duration < 60 := by
  obtain ⟨valid, known⟩ := wateringBase_accepted
  refine ⟨⟨wateringBase, logger, true⟩, (load_eq_ok_iff _ _ _).mpr ⟨rfl, valid, known⟩, ?_⟩
  intro readings
  have coarse : tolerance < (wateringTime : Output Exact).resolution := by
    rw [tolerance_eq, wateringTime_ends.2, rat_lt]
    norm_num [nearness]
  obtain ⟨inference, inferred, ⟨activation, given, strong⟩, answered, q, value, more, less⟩ :=
    valid.exists_inference_of_covering wateringBase_covering (readings.supplies known) coarse
      minutes_within
  have explained := congrArg Prod.fst
    (@Estimator.explain_eq Exact _ _ ⟨wateringBase, logger, true⟩ readings inference inferred)
  refine ⟨_, explained, ⟨_, List.mem_map_of_mem given, strong⟩, answered, ?_⟩
  simp only [decisionOf, value, literal_eq, rat_lt]
  exact ⟨by exact_mod_cast more, by exact_mod_cast less⟩

end RuleAdvisor.Watering
