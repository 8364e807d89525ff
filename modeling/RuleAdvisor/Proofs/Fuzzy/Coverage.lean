import RuleAdvisor.Proofs.Fuzzy.Merging
import RuleAdvisor.Proofs.Fuzzy.Soundness

/-!
Rule bases that leave no gap. If some rule fires whatever is read, and every conclusion is above 0
at a position of the grid and as far below it as the tolerance reaches, then no reading makes the
output fall back, and what is decided lies strictly inside the positions sampled.
-/

namespace RuleAdvisor.Fuzzy

open Exact

theorem ratio_pos_iff {p q : Rat} (positive : 0 < q) : 0 < rat p / rat q ↔ 0 < p := by
  rw [rat_div _ positive.ne', rat_pos, div_pos_iff_of_pos_right positive]

theorem not_zero_pos : ¬ (0 : Exact) < 0 := by
  simp [literal_eq]

theorem one_pos : (0 : Exact) < 1 := by
  simp [literal_eq]

theorem trapezoid_pos_iff {a b c d : Rat} (rises : a ≤ b) (level : b ≤ c) (falls : c ≤ d)
    (x : Rat) :
    0 < trapezoid (rat a) (rat b) (rat c) (rat d) (rat x)
      ↔ (a < x ∧ x < d) ∨ (b ≤ x ∧ x ≤ c) := by
  simp only [trapezoid, rat_lt, rat_le, rat_sub]
  by_cases outside : x < a ∨ d < x
  · rw [if_pos outside]
    exact iff_of_false not_zero_pos (by grind)
  · rw [if_neg outside]
    by_cases top : b ≤ x ∧ x ≤ c
    · rw [if_pos top]
      exact iff_of_true one_pos (.inr top)
    · rw [if_neg top, or_iff_left top]
      by_cases rising : x < b
      · rw [if_pos rising, ratio_pos_iff (by grind)]
        grind
      · have falling := lt_of_outside_top top rising
        rw [if_neg rising, ratio_pos_iff (by grind)]
        grind

theorem triangle_pos_iff {a b c : Rat} (rises : a ≤ b) (falls : b ≤ c) (x : Rat) :
    0 < triangle (rat a) (rat b) (rat c) (rat x) ↔ (a < x ∧ x < c) ∨ x = b := by
  rw [triangle_eq_trapezoid beq_iff_le, trapezoid_pos_iff rises le_rfl falls]
  exact or_congr_right (and_comm.trans le_antisymm_iff.symm)

def Condition.Holds (condition : Condition) (degrees : Record (Record Exact)) : Prop :=
  ∃ degree, condition.degree degrees = .ok degree ∧ 0 < degree

theorem Condition.holds_of_shape {condition : Condition} {degrees : Record (Record Exact)}
    {v : Variable Exact} {x : Exact} {shape : Shape Exact} (plain : condition.negated = false)
    (kept : condition.category ≠ Record.reserved)
    (read : degrees.get? condition.variableName = some (v.degreesAt x))
    (named : v.categories.get? condition.category = some shape) (above : 0 < shape.degree x) :
    condition.Holds degrees := by
  have recorded : degreeIn? (v.degreesAt x) condition.category = some (shape.degree x) := by
    rw [degreeIn?_eq, Variable.get?_degreesAt, if_neg kept, named, Option.map_some, Option.some_or]
  refine ⟨shape.degree x, ?_, above⟩
  rw [Condition.degree_of_degreeIn? read recorded, plain]
  rfl

theorem Fuzzified.Reads.exists_degreesAt {inputs : Fuzzified Exact} {v : Variable Exact}
    {values : Record Exact} (read : inputs.Reads v values) {least greatest : Rat}
    (ends : v.domain = ⟨rat least, rat greatest⟩) (ordered : least ≤ greatest) :
    ∃ q, least ≤ q ∧ q ≤ greatest
      ∧ inputs.degrees.get? v.name = some (v.degreesAt (rat q)) := by
  obtain ⟨value, _, _, stored⟩ := read
  obtain ⟨q, clamped, above, below⟩ := clamp_between value ordered
  refine ⟨q, above, below, ?_⟩
  rw [stored, Variable.read, ends, clamped]

theorem Rule.exists_activation_of_holds {rule : Rule} {degrees : Record (Record Exact)}
    (holds : ∀ condition ∈ rule.conditions, condition.Holds degrees) :
    ∃ strength, rule.activation degrees = .ok ⟨rule.id, rule.conclusion, strength⟩
      ∧ 0 < strength := by
  obtain ⟨strength, fires, strong⟩ := exists_foldlM_least least_pos holds one_pos
  refine ⟨strength, ?_, strong⟩
  rw [Rule.activation, Rule.strength, fires]
  rfl

theorem two_le_length_of_ne {β : Type} {xs : List β} {x y : β} (first : x ∈ xs)
    (second : y ∈ xs) (different : x ≠ y) : 2 ≤ xs.length := by
  cases xs with
  | nil => cases first
  | cons head rest =>
      cases rest with
      | nil =>
          rw [List.mem_singleton] at first second
          exact absurd (first.trans second.symm) different
      | cons next later => simp

section Kept

variable {output : Output Exact} (valid : output.WellFormed)
  {activations : List (Activation Exact)}
  (sound : ∀ activation ∈ activations, activation.Sound output) {least reach : Rat}
  (onGrid : ∀ x ∈ output.domain.samples output.resolution, Within least reach x)
  {positions : List Exact} (places : output.Places activations positions)

include valid sound onGrid places

/-- Close below every position of the grid there is one that is kept, whatever corners there are. -/
theorem Output.WellFormed.exists_position_near {x : Rat}
    (sampled : rat x ∈ output.domain.samples output.resolution) :
    ∃ y, rat y ∈ positions ∧ y ≤ x ∧ x - y ≤ nearness := by
  obtain ⟨corners, walked, rfl⟩ := places
  have between := fun activation given => (sound activation given).2
  have inside := valid.drawable.allCorners_within between onGrid walked
  obtain ⟨qs, grid⟩ := exists_map_rat fun x member => (onGrid x member).exists_rat
  obtain ⟨rs, bends⟩ := exists_map_rat fun x member => (inside x member).exists_rat
  obtain ⟨kept, merged, merges⟩ := exists_mergePositions_rat qs rs
  rw [grid] at sampled
  obtain ⟨q, listed, same⟩ := List.mem_map.mp sampled
  obtain ⟨y, member, near⟩ := merges.near x (.inl (rat.inj same ▸ listed))
  rw [grid, bends, merged]
  exact ⟨y, List.mem_map_of_mem member, near⟩

theorem Output.WellFormed.two_le_length (coarse : tolerance < output.resolution) :
    2 ≤ positions.length := by
  obtain ⟨first, last, step, ends, resolution, ordered, positive, fits⟩ :=
    valid.drawable.exists_ends
  rw [resolution, tolerance_eq, rat_lt] at coarse
  have oneFits : (1 : Int) ≤ stepCount first last step := by
    have whole : 1 ≤ (last - first) / step := (one_le_div positive).mpr fits
    exact Int.le_floor.mpr (by push_cast; linarith [nearness_pos])
  have sampled (index : Nat) (within : index ≤ stepCount first last step) :
      rat (gridPoint first step index) ∈ output.domain.samples output.resolution := by
    rw [ends, resolution]
    exact gridPoint_mem_samples ordered positive within
  -- What is kept for the first two positions of the grid is too far apart to be the same.
  obtain ⟨y, atStart, below, _⟩ :=
    valid.exists_position_near sound onGrid places (sampled 0 (by omega))
  obtain ⟨z, atNext, _, close⟩ :=
    valid.exists_position_near sound onGrid places (sampled 1 (by omega))
  apply two_le_length_of_ne atStart atNext
  intro same
  rw [rat.injEq] at same
  subst same
  simp only [gridPoint] at below close
  push_cast at below close
  linarith

end Kept

/-- The category is above 0 at a position of the grid and as far below it as another position may
stand for it. -/
def Output.Exposes (output : Output Exact) (category : String) : Prop :=
  ∃ shape x, output.categories.get? category = some shape
    ∧ rat x ∈ output.domain.samples output.resolution
    ∧ ∀ y, y ≤ x → x - y ≤ nearness → 0 < shape.degree (rat y)

/-- Whatever is read, a rule fires, and what it concludes is exposed. -/
structure RuleBase.Covering (base : RuleBase Exact) : Prop where
  fires : ∀ inputs values, (∀ v ∈ base.inputs, Fuzzified.Reads inputs v values) →
    ∃ rule ∈ base.rules, ∀ condition ∈ rule.conditions, condition.Holds inputs.degrees
  exposes : ∀ rule ∈ base.rules, base.output.Exposes rule.conclusion

/-- Over a covering rule base every inference finds a centroid, strictly between the bounds of the
grid. -/
theorem RuleBase.WellFormed.exists_inference_of_covering {base : RuleBase Exact}
    (valid : base.WellFormed) (covering : base.Covering) {values : Record Exact}
    (supplied : ∀ v ∈ base.inputs, ∃ value, values.get? v.name = some value)
    (coarse : tolerance < base.output.resolution) {least reach : Rat}
    (onGrid : ∀ x ∈ base.output.domain.samples base.output.resolution, Within least reach x) :
    ∃ inference, base.infer values = .ok inference
      ∧ (∃ activation ∈ inference.activations, 0 < activation.strength)
      ∧ inference.fallback = false
      ∧ ∃ q, inference.value = rat q ∧ least < q ∧ q < reach := by
  obtain ⟨inputs, fuzzified, read, _⟩ := valid.exists_fuzzify supplied
  obtain ⟨activations, evaluated, _, sound⟩ := valid.exists_activations read
  obtain ⟨curve, joined, samples, places, raised⟩ := valid.output.drawable.exists_curve sound onGrid
  -- A rule that fires raises the curve at the position kept for its conclusion's place.
  obtain ⟨rule, member, holds⟩ := covering.fires inputs values read
  obtain ⟨strength, fires, strong⟩ := Rule.exists_activation_of_holds holds
  obtain ⟨activation, given, same⟩ := exists_mem_of_mapM evaluated member
  rw [fires, Except.ok.injEq] at same
  subst same
  obtain ⟨shape, x, named, sampled, exposed⟩ := covering.exposes rule member
  obtain ⟨y, position, below, close⟩ :=
    valid.output.exists_position_near sound onGrid places sampled
  -- That position may be a corner instead of the grid's own, but the shape is above 0 there too.
  obtain ⟨sample, listed, atPosition⟩ := List.mem_map.mp position
  have raises : base.output.Raises ⟨rule.id, rule.conclusion, strength⟩ sample.position := by
    rw [atPosition]
    exact ⟨strong, shape, named, exposed y below close⟩
  have above : 0 < sample.degree := (raised sample listed).mpr ⟨_, given, raises⟩
  have long : 2 ≤ curve.length := by
    have kept := valid.output.two_le_length sound onGrid places coarse
    rwa [Curve.positions, List.length_map] at kept
  have solid := (Curve.isSome_centroid?_iff samples places.apart).mpr ⟨long, sample, listed, above⟩
  obtain ⟨centroid, found⟩ := Option.isSome_iff_exists.mp solid
  obtain ⟨q, rfl, between⟩ := Curve.centroid?_between samples found
  refine ⟨_, infer_eq fuzzified evaluated joined, ⟨_, given, strong⟩, ?_, q, ?_, between⟩
  · rw [found]
    rfl
  · simp only [found, Option.getD_some]

end RuleAdvisor.Fuzzy
